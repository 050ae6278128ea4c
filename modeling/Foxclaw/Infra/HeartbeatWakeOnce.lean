import Foxclaw.Infra.HeartbeatWakeSafety
import Mathlib.Data.List.Dedup

/-!
# Heartbeat wakes are run once

Two batches of one handler are kept apart by `running`, and a wake leaves the map when a batch
takes it. But a batch that was interrupted by a new registration clears `running` when it ends,
while a batch of the new handler may be in progress; and the `catch` block puts the whole batch
back, with the wakes that have been run.

## The model

Beside the state stands what each wake is for: every request has a number, a wake in the map or
in a batch has the requests it stands for (`Traced`), and a request is served when a call for it
returns `ran`. `tracedNext` is `next` with this book-keeping; batches that look the same are
told apart by it.

## What is proved

* `exec_traced`, `traced_of_exec` — the runs with and without the book-keeping are the same.
* `handler_overlaps_and_repeats` — two batches at once, and a wake that has been run is run again.
* `handler_runs_once` — neither, in a run in which no handler is registered while it has a batch in
  progress, no batch ends beside one of the registered handler, and no call throws after a wake
  of its batch was served.
-/

namespace Foxclaw.Infra.HeartbeatWake

open JsMap List Runs

/-! ### What a wake is for -/

/-- A wake with the requests it stands for. -/
structure HeldWake where
  wake : PendingWakeReason
  requests : List ℕ
  deriving DecidableEq

/-- A batch with the requests of its wakes. -/
structure HeldBatch where
  active : Handler
  delay : ℚ
  /-- The wakes whose calls have resolved. -/
  settled : List HeldWake
  /-- The wake the handler has been called with. -/
  current : HeldWake
  rest : List HeldWake
  deriving DecidableEq

/-- The batch without the requests. -/
def HeldBatch.batch (h : HeldBatch) : Batch :=
  ⟨h.active, h.delay, h.settled.map (·.wake), h.current.wake, h.rest.map (·.wake)⟩

/-- The requests that the batch has still to see to. -/
def HeldBatch.pending (h : HeldBatch) : List ℕ :=
  h.current.requests ++ h.rest.flatMap (·.requests)

/-- The state with the book-keeping. -/
structure Traced where
  state : State
  /-- The targets of the requests so far; a request is known by its place. -/
  targets : List String
  /-- The requests that wait in the map, each under the key of its target. -/
  waiting : List (String × ℕ)
  held : List HeldBatch
  /-- The requests for which a call returned `ran`. -/
  served : List ℕ
  /-- The calls, each with the requests it was for. -/
  called : List (Call × List ℕ)
  deriving DecidableEq

/-- When the module is loaded. -/
def Traced.init : Traced := ⟨HeartbeatWake.init, [], [], [], [], []⟩

/-- A request waits under the key. -/
def addRequest (key : String) (waiting : List (String × ℕ)) (n : ℕ) : List (String × ℕ) :=
  if n ∈ waiting.map Prod.snd then waiting else waiting ++ [(key, n)]

/-- The requests of a wake that is put back wait again. -/
def putRequests (waiting : List (String × ℕ)) (w : HeldWake) : List (String × ℕ) :=
  w.requests.foldl (addRequest w.wake.targetKey) waiting

variable (t : Traced)

/-- The wakes of the map, with their requests. -/
def Traced.wakes : List HeldWake :=
  t.state.pendingWakes.values.map fun w =>
    ⟨w, (t.waiting.filter fun e => e.1 = w.targetKey).map Prod.snd⟩

variable (active : Handler)

/-- The batch goes on with the next wake, if there is one. -/
def Traced.goOn (delay : ℚ) (settled todo : List HeldWake) : Traced :=
  match todo with
  | [] => t
  | w :: rest =>
    { t with
      held := t.held ++ [⟨active, delay, settled, w, rest⟩]
      called := t.called ++ [(callFor active w.wake, w.requests)] }

/-- The book-keeping when a call has resolved. -/
def Traced.resolved (h : HeldBatch) (res : HeartbeatRunResult) : Traced :=
  match res with
  | .ran _ => { t with served := t.served ++ h.current.requests }
  | .skipped reason =>
    if reason = "requests-in-flight" then { t with waiting := putRequests t.waiting h.current }
    else t
  | .failed _ => t

/-- The book-keeping of a step; `h` is the batch whose call settles. -/
def Traced.book (a : Action) (h : HeldBatch) : Traced :=
  match a with
  | .request _ opts =>
    let key := getWakeTargetKey opts.agentId opts.sessionKey
    { t with targets := t.targets ++ [key], waiting := t.waiting ++ [(key, t.targets.length)] }
  | .fire _ τ =>
    match t.state.handler with
    | none => t
    | some active =>
      if t.state.running then t
      else Traced.goOn { t with waiting := [] } active τ.delay [] t.wakes
  | .settle _ _ (.returned res) =>
    (Traced.resolved { t with held := t.held.erase h } h res).goOn h.active h.delay
      (h.settled ++ [h.current]) h.rest
  | .settle _ _ .threw =>
    { t with
      held := t.held.erase h
      waiting := (h.settled ++ h.current :: h.rest).foldl putRequests t.waiting }
  | .setHandler _ _ => t
  | .dispose _ _ => t

/-- Is `h` the batch whose call settles? -/
def settles (h : HeldBatch) : Action → Bool
  | .settle _ b _ => h ∈ t.held && h.batch = b
  | _ => true

/-- One step with the book-keeping; the batch whose call settles is chosen among those in
progress. -/
def tracedNext (a : Action × HeldBatch) : Option Traced :=
  if settles t a.2 a.1 then
    (next t.state a.1).map fun s => { t.book a.1 a.2 with state := s }
  else none

/-! ### One batch at a time -/

/-- No batch of the registered handler is in progress, or one is and `running` is set. -/
def Alone (s : State) : Prop :=
  (s.batches.countP fun b => some b.active = s.handler) ≤ s.running.toNat

theorem schedule_running (now : ℚ) (coalesceMs : JsNumber) (kind : WakeTimerKind) (s : State) :
    (schedule now coalesceMs kind s).running = s.running := by
  unfold schedule
  dsimp only
  split_ifs <;> rfl

theorem Alone.schedule {s : State} (h : Alone s) (now : ℚ) (coalesceMs : JsNumber)
    (kind : WakeTimerKind) : Alone (schedule now coalesceMs kind s) := by
  rwa [Alone, schedule_batches, schedule_handler, schedule_running]

/-- What a batch leaves when it ends: `running` is cleared. -/
theorem alone_finishBatch {s : State} (now delay : ℚ)
    (h : (s.batches.countP fun b => some b.active = s.handler) = 0) : Alone (finishBatch now delay s) := by
  have hcleared : Alone { s with running := false } := h.le
  unfold finishBatch
  dsimp only
  split_ifs
  · exact hcleared.schedule _ _ _
  · exact hcleared

theorem putBacks_frame (now : ℚ) (ws : List PendingWakeReason) (s : State) :
    (ws.foldl (putBack now) s).handler = s.handler ∧
      (ws.foldl (putBack now) s).batches = s.batches := by
  induction ws generalizing s with
  | nil => exact ⟨rfl, rfl⟩
  | cons w ws ih => exact ih (putBack now s w)

theorem countP_eq_zero_of_forall {s : State} {bs : List Batch} (h : ∀ b ∈ bs, some b.active ≠ s.handler) :
    (bs.countP fun b => some b.active = s.handler) = 0 :=
  countP_eq_zero.mpr fun b hb => by simpa using h b hb

theorem timerFires_alone {s : State} (h : Alone s) (now : ℚ) (τ : Timeout) : Alone (timerFires now τ s) := by
  unfold timerFires
  dsimp only
  split
  · exact h
  · rename_i active hactive
    split_ifs with hrunning
    · refine Alone.schedule ?_ _ _ _
      exact h
    · have hzero : (s.batches.countP fun b => some b.active = s.handler) = 0 := by
        rw [Alone, eq_false_of_ne_true hrunning] at h
        exact Nat.le_zero.mp h
      cases hvalues : s.pendingWakes.values with
      | nil => exact alone_finishBatch _ _ hzero
      | cons w rest =>
        show (s.batches ++ [_]).countP (fun b : Batch => some b.active = s.handler) ≤ 1
        rw [countP_append, hzero, Nat.zero_add]
        exact countP_le_length

theorem callSettles_alone {s : State} (h : Alone s) (now : ℚ) {b : Batch} (hb : b ∈ s.batches)
    {outcome : Outcome}
    (hend : outcome = .threw ∨ b.rest = [] → ∀ b' ∈ s.batches.erase b, some b'.active ≠ s.handler) :
    Alone (callSettles now b outcome s) := by
  unfold callSettles
  dsimp only
  cases outcome with
  | threw =>
    refine alone_finishBatch _ _ ?_
    rw [catchBatch, schedule_batches, schedule_handler, (putBacks_frame _ _ _).1, (putBacks_frame _ _ _).2]
    exact countP_eq_zero_of_forall (hend (.inl rfl))
  | returned res =>
    have hframe : (afterCall now b.current res { s with batches := s.batches.erase b }).handler =
        s.handler ∧ (afterCall now b.current res { s with batches := s.batches.erase b }).batches =
        s.batches.erase b ∧ (afterCall now b.current res
          { s with batches := s.batches.erase b }).running = s.running := by
      unfold afterCall
      split_ifs
      · exact ⟨schedule_handler _ _ _ _, schedule_batches _ _ _ _, schedule_running _ _ _ _⟩
      · exact ⟨rfl, rfl, rfl⟩
    cases hrest : b.rest with
    | nil =>
      refine alone_finishBatch _ _ ?_
      rw [hframe.1, hframe.2.1]
      exact countP_eq_zero_of_forall (hend (.inr hrest))
    | cons w rest =>
      have hcount := (perm_cons_erase hb).countP_eq fun b => some b.active = s.handler
      rw [Alone, hcount] at h
      simp only [Alone, advance, hframe.1, hframe.2.1, hframe.2.2, countP_append]
      rw [countP_cons] at h
      rwa [countP_singleton]

theorem alone_of_handler_none {s : State} (h : s.handler = none) : Alone s := by
  have hzero := @countP_eq_zero_of_forall s s.batches fun b _ => by simp [h]
  rw [Alone, hzero]
  exact Nat.zero_le _

theorem setHeartbeatWakeHandler_alone (now : ℚ) {handler : Option Handler} {s : State}
    (h : ∀ active, handler = some active → ∀ b ∈ s.batches, b.active ≠ active) :
    Alone (setHeartbeatWakeHandler now handler s) := by
  unfold setHeartbeatWakeHandler
  dsimp only
  cases handler with
  | none =>
    simp only [Option.isSome_none, Bool.false_eq_true, false_and, if_false]
    exact alone_of_handler_none rfl
  | some active =>
    have hzero : (s.batches.countP fun b => some b.active = some active) = 0 :=
      countP_eq_zero.mpr fun b hb => by simpa using h active rfl b hb
    have hcleared : Alone { clearTimer { s with
        handlerGeneration := s.handlerGeneration + 1, handler := some active,
        disposers := s.disposers ++ [(s.handlerGeneration + 1, some active)] } with
        running := false, scheduled := false } := hzero.le
    rw [if_pos (Option.isSome_some (a := active))]
    split_ifs
    · exact hcleared.schedule _ _ _
    · exact hcleared

theorem dispose_alone {s : State} (h : Alone s) (generation : ℕ) (handler : Option Handler) :
    Alone (dispose generation handler s) := by
  unfold dispose
  split_ifs
  · exact h
  · exact h
  · exact alone_of_handler_none rfl

/-- The step does none of what the module does not guard against: no handler is registered that
has a batch in progress, no batch ends beside one of the registered handler, and no call throws
after a wake of its batch was served, or put back and taken by another batch. -/
def Undisturbed (a : Action × HeldBatch) : Prop :=
  match a.1 with
  | .setHandler _ (some active) => ∀ b ∈ t.state.batches, b.active ≠ active
  | .settle _ b outcome =>
    (outcome = .threw ∨ b.rest = [] →
      ∀ b' ∈ t.state.batches.erase b, some b'.active ≠ t.state.handler) ∧
    (outcome = .threw → ∀ w ∈ a.2.settled, ∀ n ∈ w.requests,
      n ∉ t.served ∧ ∀ h ∈ t.held.erase a.2, n ∉ h.pending)
  | _ => True

instance (t : Traced) (a : Action × HeldBatch) : Decidable (Undisturbed t a) := by
  unfold Undisturbed
  split <;> infer_instance

theorem tracedNext_eq_some {t t' : Traced} {a : Action} {h : HeldBatch} :
    tracedNext t (a, h) = some t' ↔ settles t h a = true ∧
      ∃ s', next t.state a = some s' ∧ t' = { t.book a h with state := s' } := by
  rw [tracedNext, Option.ite_none_right_eq_some, Option.map_eq_some_iff]
  simp only [eq_comm]

/-- An undisturbed step keeps the batches of the registered handler apart. -/
theorem tracedNext_alone {t t' : Traced} {a : Action × HeldBatch} (h : Alone t.state)
    (hP : Undisturbed t a) (hs : tracedNext t a = some t') : Alone t'.state := by
  obtain ⟨a, held⟩ := a
  obtain ⟨-, s', hnext, rfl⟩ := tracedNext_eq_some.mp hs
  cases a with
  | request now opts =>
    cases hnext
    exact Alone.schedule (s := queuePendingWakeReason now opts.reason opts.agentId opts.sessionKey
      t.state) h _ _ _
  | fire now τ =>
    obtain ⟨-, ⟨⟩⟩ := Option.ite_none_right_eq_some.mp hnext
    exact timerFires_alone h now τ
  | settle now b outcome =>
    obtain ⟨hb, ⟨⟩⟩ := Option.ite_none_right_eq_some.mp hnext
    exact callSettles_alone h now hb hP.1
  | setHandler now handler =>
    cases hnext
    refine setHeartbeatWakeHandler_alone now fun active hactive => ?_
    subst hactive
    exact hP
  | dispose generation handler =>
    obtain ⟨-, ⟨⟩⟩ := Option.ite_none_right_eq_some.mp hnext
    exact dispose_alone h generation handler

/-! ### The books -/

/-- The wake stands for requests, all for its target. -/
def WakeOk (targets : List String) (w : HeldWake) : Prop :=
  w.requests ≠ [] ∧ ∀ n ∈ w.requests, targets[n]? = some w.wake.targetKey

/-- The waiting requests stand under the keys of their targets, each once. -/
def WaitingOk (targets : List String) (waiting : List (String × ℕ)) : Prop :=
  (∀ e ∈ waiting, targets[e.2]? = some e.1) ∧ (waiting.map Prod.snd).Nodup

/-- The requests that batches have still to see to; `todo` are wakes that have left the
map and stand in no batch. -/
def Traced.pending (t : Traced) (todo : List HeldWake) : List ℕ :=
  todo.flatMap (·.requests) ++ t.held.flatMap HeldBatch.pending

/-- The books are in order: a request waits, or one batch has still to see to it, or it has been
served, and no two of these. -/
structure Books (todo : List HeldWake) (t : Traced) : Prop where
  waiting : WaitingOk t.targets t.waiting
  /-- The wakes of the batches are right. -/
  held : ∀ h ∈ t.held, ∀ w ∈ h.settled ++ h.current :: h.rest, WakeOk t.targets w
  hand : ∀ w ∈ todo, WakeOk t.targets w
  /-- Only requests are served. -/
  served : ∀ n ∈ t.served, n < t.targets.length
  /-- A request stands in one batch only. -/
  nodup : (t.pending todo).Nodup
  /-- What a batch has still to see to does not wait. -/
  apart : ∀ n ∈ t.pending todo, n ∉ t.waiting.map Prod.snd
  /-- What is served neither waits nor has to be seen to. -/
  done : ∀ n ∈ t.served, n ∉ t.waiting.map Prod.snd ∧ n ∉ t.pending todo

section Waiting

variable {targets : List String} {waiting : List (String × ℕ)}

theorem addRequest_spec (key : String) (waiting : List (String × ℕ)) (n m : ℕ) :
    m ∈ (addRequest key waiting n).map Prod.snd ↔ m ∈ waiting.map Prod.snd ∨ m = n := by
  unfold addRequest
  split
  · rename_i hn
    exact ⟨.inl, fun h => h.elim id fun h => h ▸ hn⟩
  · simp

theorem WaitingOk.add {key : String} {n : ℕ} (h : WaitingOk targets waiting)
    (hn : targets[n]? = some key) : WaitingOk targets (addRequest key waiting n) := by
  unfold addRequest
  split
  · exact h
  · rename_i hnot
    refine ⟨fun e he => ?_, ?_⟩
    · rcases mem_append.mp he with he | he
      · exact h.1 e he
      · obtain rfl := mem_singleton.mp he
        exact hn
    · rw [map_append, nodup_append]
      exact ⟨h.2, nodup_singleton _, by
        rintro m hm _ hm' rfl
        obtain rfl : m = n := mem_singleton.mp hm'
        exact hnot hm⟩

theorem WaitingOk.put {w : HeldWake} (h : WaitingOk targets waiting)
    (hw : ∀ n ∈ w.requests, targets[n]? = some w.wake.targetKey) :
    WaitingOk targets (putRequests waiting w) := by
  unfold putRequests
  generalize w.wake.targetKey = key at hw ⊢
  generalize w.requests = ns at hw ⊢
  induction ns generalizing waiting with
  | nil => exact h
  | cons n ns ih =>
    exact ih (h.add (hw n mem_cons_self)) fun m hm => hw m (mem_cons_of_mem _ hm)

theorem mem_putRequests {w : HeldWake} {n : ℕ} :
    n ∈ (putRequests waiting w).map Prod.snd ↔ n ∈ waiting.map Prod.snd ∨ n ∈ w.requests := by
  unfold putRequests
  generalize w.requests = ns
  induction ns generalizing waiting with
  | nil => simp
  | cons m ns ih => rw [foldl_cons, ih, addRequest_spec, mem_cons, or_assoc]

theorem WaitingOk.putAll {ws : List HeldWake} (h : WaitingOk targets waiting)
    (hws : ∀ w ∈ ws, WakeOk targets w) : WaitingOk targets (ws.foldl putRequests waiting) := by
  induction ws generalizing waiting with
  | nil => exact h
  | cons w ws ih =>
    exact ih (h.put (hws w mem_cons_self).2) fun w' hw' =>
      hws w' (mem_cons_of_mem _ hw')

theorem mem_putAll {ws : List HeldWake} {n : ℕ} :
    n ∈ (ws.foldl putRequests waiting).map Prod.snd ↔
      n ∈ waiting.map Prod.snd ∨ n ∈ ws.flatMap (·.requests) := by
  induction ws generalizing waiting with
  | nil => simp
  | cons w ws ih => rw [foldl_cons, ih, mem_putRequests, flatMap_cons, mem_append, or_assoc]

/-- A request of the wake waits under the key of its target. -/
theorem WaitingOk.mem_of_wakeOk {w : HeldWake} (h : WaitingOk targets waiting) (hw : WakeOk targets w)
    (hmem : ∀ n ∈ w.requests, n ∈ waiting.map Prod.snd) : ∃ n, (w.wake.targetKey, n) ∈ waiting := by
  obtain ⟨n, hn⟩ := exists_mem_of_ne_nil _ hw.1
  obtain ⟨⟨key, n⟩, he, rfl⟩ := List.mem_map.mp (hmem n hn)
  have hkey := (h.1 _ he).symm.trans (hw.2 _ hn)
  exact ⟨n, Option.some.inj hkey ▸ he⟩

end Waiting

/-! ### Steps of the books -/

/-- The wakes in hand go into a batch. -/
theorem Books.goOn {t : Traced} {todo : List HeldWake} (h : Books todo t) (active : Handler)
    (delay : ℚ) {settled : List HeldWake} (hs : ∀ w ∈ settled, WakeOk t.targets w) :
    Books [] (t.goOn active delay settled todo) := by
  cases todo with
  | nil => exact h
  | cons w rest =>
    have hperm : (Traced.pending (t.goOn active delay settled (w :: rest)) []).Perm
        (t.pending (w :: rest)) := by
      simp only [Traced.pending, Traced.goOn, flatMap_append, flatMap_nil, nil_append,
        HeldBatch.pending, flatMap_cons, append_nil]
      exact perm_append_comm
    refine ⟨h.waiting, ?_, fun _ hw => (by cases hw), h.served, hperm.nodup_iff.mpr h.nodup, ?_, ?_⟩
    · intro b hb w' hw'
      rcases mem_append.mp hb with hb | hb
      · exact h.held b hb w' hw'
      · obtain rfl := mem_singleton.mp hb
        rcases mem_append.mp hw' with hw' | hw'
        · exact hs w' hw'
        · exact h.hand w' hw'
    · exact fun n hn => h.apart n (hperm.mem_iff.mp hn)
    · exact fun n hn => ⟨(h.done n hn).1, fun hn' => (h.done n hn).2 (hperm.mem_iff.mp hn')⟩

/-- A batch is taken out, its wakes in hand. -/
theorem Books.take {t : Traced} {h : HeldBatch} (ht : Books [] t) (hmem : h ∈ t.held) :
    Books (h.current :: h.rest) { t with held := t.held.erase h } := by
  have hperm : (Traced.pending { t with held := t.held.erase h } (h.current :: h.rest)).Perm
      (t.pending []) := by
    have := (perm_cons_erase hmem).flatMap_right HeldBatch.pending
    exact this.symm
  refine ⟨ht.waiting, fun b hb => ht.held b (mem_of_mem_erase hb), ?_, ht.served,
    hperm.nodup_iff.mpr ht.nodup, fun n hn => ht.apart n (hperm.mem_iff.mp hn), ?_⟩
  · exact fun w hw => ht.held h hmem w (mem_append_right _ hw)
  · exact fun n hn => ⟨(ht.done n hn).1, fun hn' => (ht.done n hn).2 (hperm.mem_iff.mp hn')⟩

theorem Books.drop {t : Traced} {w : HeldWake} {rest : List HeldWake} (h : Books (w :: rest) t) :
    Books rest t := by
  have hsub : (t.pending rest).Sublist (t.pending (w :: rest)) :=
    (sublist_append_right w.requests _).append_right _
  exact ⟨h.waiting, h.held, fun w' hw' => h.hand w' (mem_cons_of_mem _ hw'), h.served,
    h.nodup.sublist hsub, fun n hn => h.apart n (hsub.subset hn),
    fun n hn => ⟨(h.done n hn).1, fun hn' => (h.done n hn).2 (hsub.subset hn')⟩⟩

/-- The requests of the first wake in hand have been served. -/
theorem Books.serve {t : Traced} {w : HeldWake} {rest : List HeldWake} (h : Books (w :: rest) t) :
    Books rest { t with served := t.served ++ w.requests } := by
  have hsplit := nodup_append.mp (show (w.requests ++ t.pending rest).Nodup by
    simpa [Traced.pending] using h.nodup)
  have hmem (n : ℕ) (hn : n ∈ w.requests) : n ∈ t.pending (w :: rest) := by
    simp [Traced.pending, hn]
  refine ⟨h.waiting, h.held, h.drop.hand, fun n hn => ?_, h.drop.nodup, h.drop.apart, fun n hn => ?_⟩
  · rcases mem_append.mp hn with hn | hn
    · exact h.served n hn
    · exact (List.getElem?_eq_some_iff.mp ((h.hand w mem_cons_self).2 n hn)).1
  · rcases mem_append.mp hn with hn | hn
    · exact h.drop.done n hn
    · exact ⟨h.apart n (hmem n hn), fun hn' => hsplit.2.2 n hn n hn' rfl⟩

/-- Wakes are put back: those in hand, and others that are neither served nor with a batch. -/
theorem Books.putAll {t : Traced} {todo ws : List HeldWake} (h : Books todo t)
    (hws : ∀ w ∈ ws, WakeOk t.targets w) {rest : List HeldWake}
    (hsub : (t.pending rest).Sublist (t.pending todo)) (hrest : ∀ w ∈ rest, WakeOk t.targets w)
    (hfree : ∀ n ∈ ws.flatMap (·.requests), n ∉ t.served ∧ n ∉ t.pending rest) :
    Books rest { t with waiting := ws.foldl putRequests t.waiting } := by
  refine ⟨h.waiting.putAll hws, h.held, hrest, h.served, h.nodup.sublist hsub, ?_, ?_⟩
  · intro n hn hwaits
    rcases mem_putAll.mp hwaits with hwaits | hwaits
    · exact h.apart n (hsub.subset hn) hwaits
    · exact (hfree n hwaits).2 hn
  · refine fun n hn => ⟨fun hwaits => ?_, fun hn' => (h.done n hn).2 (hsub.subset hn')⟩
    rcases mem_putAll.mp hwaits with hwaits | hwaits
    · exact (h.done n hn).1 hwaits
    · exact (hfree n hwaits).1 hn

/-- The call for the first wake in hand has resolved. -/
theorem Books.resolved {t : Traced} {h : HeldBatch} {rest : List HeldWake}
    (ht : Books (h.current :: rest) t) (res : HeartbeatRunResult) : Books rest (t.resolved h res) := by
  cases res with
  | ran durationMs => exact ht.serve
  | failed reason => exact ht.drop
  | skipped reason =>
    rw [Traced.resolved]
    split
    · have hsplit := nodup_append.mp (show (h.current.requests ++ t.pending rest).Nodup by
        simpa [Traced.pending] using ht.nodup)
      have hback := @Books.putAll _ _ [h.current] ht
        (fun w hw => ht.hand w (mem_cons.mpr (.inl (mem_singleton.mp hw)))) rest
        ((sublist_append_right h.current.requests _).append_right _) ht.drop.hand ?_
      · exact hback
      · intro n hn
        rw [flatMap_singleton] at hn
        refine ⟨fun hserved => (ht.done n hserved).2 ?_, fun hn' => hsplit.2.2 n hn n hn' rfl⟩
        simp [Traced.pending, hn]
    · exact ht.drop

theorem WakeOk.lt {targets : List String} {w : HeldWake} (h : WakeOk targets w) {n : ℕ}
    (hn : n ∈ w.requests) : n < targets.length :=
  (List.getElem?_eq_some_iff.mp (h.2 n hn)).1

theorem Books.lt_of_pending {t : Traced} (h : Books [] t) {n : ℕ} (hn : n ∈ t.pending []) :
    n < t.targets.length := by
  rw [Traced.pending, flatMap_nil, nil_append, mem_flatMap] at hn
  obtain ⟨b, hb, hn⟩ := hn
  rcases mem_append.mp hn with hn | hn
  · exact (h.held b hb _ (by simp)).lt hn
  · obtain ⟨w, hw, hn⟩ := mem_flatMap.mp hn
    exact (h.held b hb w (by simp [hw])).lt hn

theorem Books.request {t : Traced} (h : Books [] t) (key : String) :
    Books [] { t with
      targets := t.targets ++ [key], waiting := t.waiting ++ [(key, t.targets.length)] } := by
  have hmono {n : ℕ} {k : String} (hn : t.targets[n]? = some k) : (t.targets ++ [key])[n]? = some k := by
    rw [getElem?_append_left (List.getElem?_eq_some_iff.mp hn).1]
    exact hn
  have hwake {w : HeldWake} (hw : WakeOk t.targets w) : WakeOk (t.targets ++ [key]) w :=
    ⟨hw.1, fun n hn => hmono (hw.2 n hn)⟩
  have hnew : t.targets.length ∉ t.waiting.map Prod.snd := by
    intro hmem
    obtain ⟨e, he, heq⟩ := List.mem_map.mp hmem
    have := (List.getElem?_eq_some_iff.mp (h.waiting.1 e he)).1
    omega
  refine ⟨⟨fun e he => ?_, ?_⟩, fun b hb w hw => hwake (h.held b hb w hw), fun w hw => (by cases hw),
    fun n hn => ?_, h.nodup, fun n hn hmem => ?_, fun n hn => ⟨fun hmem => ?_, (h.done n hn).2⟩⟩
  · rcases mem_append.mp he with he | he
    · exact hmono (h.waiting.1 e he)
    · obtain rfl := mem_singleton.mp he
      simp
  · rw [map_append, nodup_append]
    refine ⟨h.waiting.2, nodup_singleton _, ?_⟩
    rintro n hn _ hn' rfl
    obtain rfl : n = t.targets.length := mem_singleton.mp hn'
    exact hnew hn
  · rw [length_append]
    exact Nat.lt_add_right _ (h.served n hn)
  · rw [map_append, mem_append] at hmem
    rcases hmem with hmem | hmem
    · exact h.apart n hn hmem
    · obtain rfl : n = t.targets.length := mem_singleton.mp hmem
      exact Nat.lt_irrefl _ (h.lt_of_pending hn)
  · rw [map_append, mem_append] at hmem
    rcases hmem with hmem | hmem
    · exact (h.done n hn).1 hmem
    · obtain rfl : n = t.targets.length := mem_singleton.mp hmem
      exact Nat.lt_irrefl _ (h.served _ hn)

theorem Books.takeAll {t : Traced} (h : Books [] t) (hkeyed : Keyed t.state.pendingWakes)
    (hwaits : ∀ k, t.state.pendingWakes.has k = true → ∃ n, (k, n) ∈ t.waiting) :
    Books t.wakes { t with waiting := [] } := by
  have hok : ∀ w ∈ t.wakes, WakeOk t.targets w ∧ ∀ n ∈ w.requests, n ∈ t.waiting.map Prod.snd := by
    intro w hw
    obtain ⟨v, hv, rfl⟩ := List.mem_map.mp hw
    obtain ⟨k, hk⟩ := mem_values_iff.mp hv
    obtain ⟨n, hn⟩ := hwaits k (has_iff.mpr ⟨v, hk⟩)
    have hkey := hkeyed k v hk
    refine ⟨⟨?_, fun m hm => ?_⟩, fun m hm => ?_⟩
    · refine ne_nil_of_mem (List.mem_map_of_mem (mem_filter.mpr ⟨hn, ?_⟩))
      exact decide_eq_true hkey.symm
    · obtain ⟨e, he, rfl⟩ := List.mem_map.mp hm
      obtain ⟨he, hfst⟩ := mem_filter.mp he
      rw [h.waiting.1 e he, of_decide_eq_true hfst]
    · obtain ⟨e, he, rfl⟩ := List.mem_map.mp hm
      exact List.mem_map_of_mem (mem_filter.mp he).1
  have hdistinct : t.state.pendingWakes.values.Pairwise fun v v' => v.targetKey ≠ v'.targetKey := by
    have hkeys : t.state.pendingWakes.values.map PendingWakeReason.targetKey =
        t.state.pendingWakes.entries.map Prod.fst := by
      rw [JsMap.values, List.map_map]
      refine map_congr_left fun e he => ?_
      exact hkeyed e.1 e.2 (mem_entries_iff.mp he)
    exact pairwise_map.mp (hkeys ▸ t.state.pendingWakes.nodup_keys)
  have hnodup : (t.wakes.flatMap (·.requests)).Nodup := by
    rw [nodup_flatMap]
    constructor
    · intro w hw
      obtain ⟨v, -, rfl⟩ := List.mem_map.mp hw
      exact h.waiting.2.sublist (filter_sublist.map _)
    · refine pairwise_map.mpr (hdistinct.imp fun {v v'} hne n hn hn' => hne ?_)
      obtain ⟨e, he, rfl⟩ := List.mem_map.mp hn
      obtain ⟨e', he', heq⟩ := List.mem_map.mp hn'
      obtain ⟨he, hfst⟩ := mem_filter.mp he
      obtain ⟨he', hfst'⟩ := mem_filter.mp he'
      have hkey := (h.waiting.1 e he).symm.trans (heq ▸ h.waiting.1 e' he')
      rw [← of_decide_eq_true hfst, ← of_decide_eq_true hfst', Option.some.inj hkey]
  have hmem (n : ℕ) (hn : n ∈ t.wakes.flatMap (·.requests)) : n ∈ t.waiting.map Prod.snd := by
    obtain ⟨w, hw, hn⟩ := mem_flatMap.mp hn
    exact (hok w hw).2 n hn
  refine ⟨⟨fun e he => (by cases he), nodup_nil⟩, h.held, fun w hw => (hok w hw).1, h.served, ?_,
    fun _ _ hn => (by cases hn), fun n hn => ⟨fun hn' => (by cases hn'), fun hn' => ?_⟩⟩
  · refine nodup_append.mpr ⟨hnodup, h.nodup, ?_⟩
    rintro n hn _ hn' rfl
    exact h.apart n hn' (hmem n hn)
  · rcases mem_append.mp hn' with hn' | hn'
    · exact (h.done n hn).1 (hmem n hn')
    · exact (h.done n hn).2 hn'

/-! ### The books and the state -/

/-- The books are about the state. -/
structure Mirrors (t : Traced) (s : State) : Prop where
  /-- The batches are those of the state. -/
  batches : (t.held.map HeldBatch.batch).Perm s.batches
  /-- The calls are those of the state. -/
  called : t.called.map Prod.fst = s.calls

theorem Mirrors.schedule {t : Traced} {s : State} (h : Mirrors t s) (now : ℚ) (coalesceMs : JsNumber)
    (kind : WakeTimerKind) : Mirrors t (schedule now coalesceMs kind s) where
  batches := by rw [schedule_batches]; exact h.batches
  called := by rw [schedule_calls]; exact h.called

theorem Mirrors.finishBatch {t : Traced} {s : State} (h : Mirrors t s) (now delay : ℚ) :
    Mirrors t (finishBatch now delay s) := by
  have hcleared : Mirrors t { s with running := false } := ⟨h.batches, h.called⟩
  unfold HeartbeatWake.finishBatch
  dsimp only
  split_ifs
  · exact hcleared.schedule _ _ _
  · exact hcleared

theorem Mirrors.goOn {t : Traced} {s : State} (h : Mirrors t s) (now : ℚ) (active : Handler)
    (delay : ℚ) (settled todo : List HeldWake) :
    Mirrors (t.goOn active delay settled todo)
      (advance now active delay (settled.map (·.wake)) (todo.map (·.wake)) s) := by
  cases todo with
  | nil => exact h.finishBatch now delay
  | cons w rest =>
    constructor
    · rw [Traced.goOn, map_append]
      exact h.batches.append_right _
    · rw [Traced.goOn, map_append, h.called]
      rfl

theorem Mirrors.take {t : Traced} {s : State} (h : Mirrors t s) {held : HeldBatch}
    (hmem : held ∈ t.held) : Mirrors { t with held := t.held.erase held }
      { s with batches := s.batches.erase held.batch } where
  batches := by
    have hheld := (perm_cons_erase hmem).map HeldBatch.batch
    have hb : held.batch ∈ s.batches := h.batches.mem_iff.mp (List.mem_map_of_mem hmem)
    exact (hheld.symm.trans (h.batches.trans (perm_cons_erase hb))).cons_inv
  called := h.called

theorem Mirrors.afterCall {t : Traced} {s : State} (h : Mirrors t s) (now : ℚ) (held : HeldBatch)
    (res : HeartbeatRunResult) : Mirrors (t.resolved held res) (afterCall now held.current.wake res s) := by
  have ht : Mirrors (t.resolved held res) s := by
    cases res with
    | ran durationMs => exact ⟨h.batches, h.called⟩
    | failed reason => exact h
    | skipped reason => rw [Traced.resolved]; split <;> exact ⟨h.batches, h.called⟩
  unfold HeartbeatWake.afterCall
  split
  · exact Mirrors.schedule (s := putBack now s held.current.wake) ⟨ht.batches, ht.called⟩ _ _ _
  · exact ht

/-- Every step keeps the books about the state. -/
theorem tracedNext_mirrors {t t' : Traced} {a : Action × HeldBatch} (h : Mirrors t t.state)
    (hs : tracedNext t a = some t') : Mirrors t' t'.state := by
  obtain ⟨a, held⟩ := a
  obtain ⟨hsettles, s', hnext, rfl⟩ := tracedNext_eq_some.mp hs
  suffices hsuff : Mirrors (t.book a held) s' from ⟨hsuff.batches, hsuff.called⟩
  cases a with
  | request now opts =>
    cases hnext
    refine Mirrors.schedule ?_ _ _ _
    exact ⟨h.batches, h.called⟩
  | fire now τ =>
    obtain ⟨-, ⟨⟩⟩ := Option.ite_none_right_eq_some.mp hnext
    unfold Traced.book timerFires
    dsimp only
    cases t.state.handler with
    | none => exact ⟨h.batches, h.called⟩
    | some active =>
      dsimp only
      split_ifs
      · refine Mirrors.schedule ?_ _ _ _
        exact ⟨h.batches, h.called⟩
      · have hwakes : t.wakes.map (·.wake) = t.state.pendingWakes.values := by
          rw [Traced.wakes, List.map_map]
          exact List.map_id _
        rw [← hwakes]
        refine Mirrors.goOn ?_ now active τ.delay [] t.wakes
        exact ⟨h.batches, h.called⟩
  | settle now b outcome =>
    obtain ⟨-, ⟨⟩⟩ := Option.ite_none_right_eq_some.mp hnext
    obtain ⟨hmem, rfl⟩ : held ∈ t.held ∧ held.batch = b := by simpa [settles] using hsettles
    cases outcome with
    | returned res =>
      have hafter := ((h.take hmem).afterCall now held res).goOn now held.active held.delay
        (held.settled ++ [held.current]) held.rest
      rwa [map_append] at hafter
    | threw =>
      obtain ⟨hcalls, hbatches, -⟩ := putBacks_spec (k := "") now held.batch.pendingBatch
        { t.state with batches := t.state.batches.erase held.batch }
      refine Mirrors.finishBatch (Mirrors.schedule ?_ _ _ _) _ _
      exact ⟨by rw [hbatches]; exact (h.take hmem).batches, (h.take hmem).called.trans hcalls.symm⟩
  | setHandler now handler =>
    cases hnext
    unfold setHeartbeatWakeHandler
    dsimp only
    split_ifs
    · refine Mirrors.schedule ?_ _ _ _
      exact ⟨h.batches, h.called⟩
    · exact ⟨h.batches, h.called⟩
    · refine Mirrors.schedule ?_ _ _ _
      exact ⟨h.batches, h.called⟩
    · exact ⟨h.batches, h.called⟩
  | dispose generation handler =>
    obtain ⟨-, ⟨⟩⟩ := Option.ite_none_right_eq_some.mp hnext
    unfold dispose
    split_ifs
    · exact h
    · exact h
    · exact ⟨h.batches, h.called⟩

/-! ### What waits in the map -/

/-- A wake in the map stands for a request that waits. -/
def Waits (s : State) : Prop :=
  ∀ k, s.pendingWakes.has k = true → ∃ n, (k, n) ∈ t.waiting

theorem Waits.congr {t t' : Traced} {s s' : State} (h : Waits t s) (ht : t'.waiting = t.waiting)
    (hs : s'.pendingWakes = s.pendingWakes) : Waits t' s' := fun k hk => ht ▸ h k (hs ▸ hk)

theorem Waits.schedule {t : Traced} {s : State} (h : Waits t s) (now : ℚ) (coalesceMs : JsNumber)
    (kind : WakeTimerKind) : Waits t (schedule now coalesceMs kind s) :=
  h.congr rfl (schedule_pendingWakes _ _ _ _)

theorem Waits.advance {t : Traced} {s : State} (h : Waits t s) (now : ℚ) (active : Handler) (delay : ℚ)
    (settled todo : List PendingWakeReason) : Waits t (advance now active delay settled todo s) := by
  cases todo with
  | cons w rest => exact h.congr rfl rfl
  | nil =>
    rw [HeartbeatWake.advance, finishBatch]
    split_ifs
    · exact (h.congr rfl rfl : Waits t { s with running := false }).schedule _ _ _
    · exact h.congr rfl rfl

theorem waiting_goOn (delay : ℚ) (settled todo : List HeldWake) :
    (t.goOn active delay settled todo).waiting = t.waiting := by
  cases todo <;> rfl

theorem has_of_has_putWake {m : JsMap String PendingWakeReason} {w : PendingWakeReason} {k : String}
    (h : (putWake m w).has k = true) : m.has k = true ∨ k = w.targetKey := by
  have hset : (m.set w.targetKey w).has k = true → m.has k = true ∨ k = w.targetKey := by
    rw [JsMap.has, get?_set]
    split
    · rename_i hk
      exact fun _ => .inr hk.symm
    · exact .inl
  unfold putWake at h
  split at h
  · exact hset h
  · split at h
    · exact hset h
    · exact .inl h

theorem has_of_has_putBacks {now : ℚ} {ws : List PendingWakeReason} {s : State} {k : String}
    (h : (ws.foldl (putBack now) s).pendingWakes.has k = true) :
    s.pendingWakes.has k = true ∨ ∃ w ∈ ws, w.targetKey = k := by
  induction ws generalizing s with
  | nil => exact .inl h
  | cons w ws ih =>
    rcases ih h with h | ⟨w', hw', hk⟩
    · rcases has_of_has_putWake h with h | h
      · exact .inl h
      · exact .inr ⟨w, mem_cons_self, by rw [h, targetKey_mkWake]; rfl⟩
    · exact .inr ⟨w', mem_cons_of_mem _ hw', hk⟩

/-- Wakes are put back, in the state and in the books. -/
theorem Waits.putAll {t : Traced} {s : State} (h : Waits t s) (now : ℚ) {ws : List HeldWake}
    (hok : WaitingOk t.targets t.waiting) (hws : ∀ w ∈ ws, WakeOk t.targets w) :
    Waits { t with waiting := ws.foldl putRequests t.waiting }
      ((ws.map (·.wake)).foldl (putBack now) s) := by
  intro k hk
  rcases has_of_has_putBacks hk with hk | ⟨_, hw, rfl⟩
  · obtain ⟨n, hn⟩ := h k hk
    have hmem : n ∈ (ws.foldl putRequests t.waiting).map Prod.snd :=
      mem_putAll.mpr (.inl (List.mem_map_of_mem (f := Prod.snd) hn))
    obtain ⟨⟨k', n'⟩, he, heq⟩ := List.mem_map.mp hmem
    obtain rfl : n' = n := heq
    have hkey : some k' = some k := ((hok.putAll hws).1 _ he).symm.trans (hok.1 (k, n') hn)
    exact ⟨n', Option.some.inj hkey ▸ he⟩
  · obtain ⟨w, hmem, rfl⟩ := List.mem_map.mp hw
    exact (hok.putAll hws).mem_of_wakeOk (hws w hmem) fun n hn =>
      mem_putAll.mpr (.inr (mem_flatMap.mpr ⟨w, hmem, hn⟩))

theorem Waits.afterCall {t : Traced} {s : State} (h : Waits t s) (now : ℚ) {held : HeldBatch}
    (hok : WaitingOk t.targets t.waiting) (hw : WakeOk t.targets held.current) (res : HeartbeatRunResult) :
    Waits (t.resolved held res) (afterCall now held.current.wake res s) := by
  unfold HeartbeatWake.afterCall
  cases res with
  | ran durationMs => exact h
  | failed reason => exact h
  | skipped reason =>
    rw [Traced.resolved]
    by_cases hreason : reason = "requests-in-flight"
    · rw [if_pos hreason, if_pos (congrArg _ hreason)]
      exact (@Waits.putAll _ _ h now [held.current] hok fun w hmem =>
        mem_singleton.mp hmem ▸ hw).schedule _ _ _
    · rw [if_neg hreason, if_neg (fun heq => hreason (HeartbeatRunResult.skipped.inj heq))]
      exact h

/-! ### Undisturbed steps -/

/-- What holds in every state of a run with the book-keeping. -/
structure TracedInv (t : Traced) : Prop where
  inv : Inv t.state
  books : Books [] t
  /-- A wake in the map stands for a request. -/
  waits : Waits t t.state

theorem init_traced : TracedInv .init where
  inv := init_inv
  books := ⟨⟨fun _ h => (by cases h), nodup_nil⟩, fun _ h => (by cases h), fun _ h => (by cases h),
    fun _ h => (by cases h), nodup_nil, fun _ h => (by cases h), fun _ h => (by cases h)⟩
  waits := fun _ h => by cases h

theorem Books.congr {todo : List HeldWake} {t : Traced} (h : Books todo t) (s : State) :
    Books todo { t with state := s } :=
  ⟨h.waiting, h.held, h.hand, h.served, h.nodup, h.apart, h.done⟩

theorem fire_traced {t : Traced} (h : TracedInv t) (now : ℚ) (τ : Timeout) (held : HeldBatch) :
    Books [] (t.book (.fire now τ) held) ∧
      Waits (t.book (.fire now τ) held) (timerFires now τ t.state) := by
  unfold Traced.book timerFires
  dsimp only
  cases t.state.handler with
  | none => exact ⟨h.books, h.waits⟩
  | some active =>
    dsimp only
    split_ifs
    · refine ⟨h.books, Waits.schedule ?_ _ _ _⟩
      exact h.waits
    · have htaken := h.books.takeAll h.inv.keyed h.waits
      refine ⟨@Books.goOn _ _ htaken active τ.delay [] fun w hw => (by cases hw),
        Waits.advance ?_ _ _ _ _ _⟩
      exact fun k hk => by cases hk

theorem settle_traced {t : Traced} (h : TracedInv t) (now : ℚ) {held : HeldBatch}
    (hmem : held ∈ t.held) {outcome : Outcome} (hfree : outcome = .threw →
      ∀ w ∈ held.settled, ∀ n ∈ w.requests,
        n ∉ t.served ∧ ∀ h ∈ t.held.erase held, n ∉ h.pending) :
    Books [] (t.book (.settle now held.batch outcome) held) ∧
      Waits (t.book (.settle now held.batch outcome) held)
        (callSettles now held.batch outcome t.state) := by
  have htaken := h.books.take hmem
  have hwaits : Waits { t with held := t.held.erase held }
      { t.state with batches := t.state.batches.erase held.batch } := h.waits
  have hall := h.books.held held hmem
  cases outcome with
  | returned res =>
    have hsettled : ∀ w ∈ held.settled ++ [held.current], WakeOk t.targets w := fun w hw =>
      hall w (mem_append.mpr ((mem_append.mp hw).imp_right fun hw =>
        mem_cons.mpr (.inl (mem_singleton.mp hw))))
    have htargets : (Traced.resolved { t with held := t.held.erase held } held res).targets =
        t.targets := by
      cases res with
      | ran => rfl
      | failed => rfl
      | skipped reason => rw [Traced.resolved]; split <;> rfl
    refine ⟨(htaken.resolved res).goOn _ _ (htargets.symm ▸ hsettled), ?_⟩
    have hafter := hwaits.afterCall now htaken.waiting (htaken.hand held.current mem_cons_self) res
    exact (hafter.congr (waiting_goOn _ _ _ _ _) rfl).advance _ _ _ _ _
  | threw =>
    constructor
    · refine @Books.putAll _ _ _ htaken hall [] (sublist_append_right _ _)
        (fun w hw => (by cases hw)) fun n hn => ?_
      obtain ⟨w, hw, hn⟩ := mem_flatMap.mp hn
      rcases mem_append.mp hw with hw | hw
      · refine ⟨(hfree rfl w hw n hn).1, fun hn' => ?_⟩
        obtain ⟨b, hb, hn'⟩ := mem_flatMap.mp hn'
        exact (hfree rfl w hw n hn).2 b hb hn'
      · have hn : n ∈ (held.current :: held.rest).flatMap (·.requests) :=
          mem_flatMap.mpr ⟨w, hw, hn⟩
        refine ⟨fun hserved => (htaken.done n hserved).2 (mem_append_left _ hn), fun hn' => ?_⟩
        exact (nodup_append.mp htaken.nodup).2.2 n hn n hn' rfl
    · have hback := hwaits.putAll now htaken.waiting hall
      rw [map_append, map_cons] at hback
      exact (hback.schedule _ _ _).advance now held.active held.delay [] []

/-- A step that is not disturbed keeps the books in order. -/
theorem tracedNext_inv {t t' : Traced} {a : Action × HeldBatch} (h : TracedInv t)
    (hP : Undisturbed t a) (hs : tracedNext t a = some t') : TracedInv t' := by
  obtain ⟨a, held⟩ := a
  obtain ⟨hsettles, s', hnext, rfl⟩ := tracedNext_eq_some.mp hs
  suffices hsuff : Books [] (t.book a held) ∧ Waits (t.book a held) s' from
    ⟨next_inv h.inv hnext, hsuff.1.congr s', hsuff.2⟩
  cases a with
  | request now opts =>
    cases hnext
    refine ⟨h.books.request _, Waits.schedule ?_ _ _ _⟩
    intro k hk
    rcases has_of_has_putWake hk with hk | rfl
    · exact (h.waits k hk).imp fun n hn => mem_append_left _ hn
    · rw [targetKey_mkWake]
      exact ⟨_, mem_append_right _ (mem_singleton_self _)⟩
  | fire now τ =>
    obtain ⟨-, ⟨⟩⟩ := Option.ite_none_right_eq_some.mp hnext
    exact fire_traced h now τ held
  | settle now b outcome =>
    obtain ⟨-, ⟨⟩⟩ := Option.ite_none_right_eq_some.mp hnext
    obtain ⟨hmem, rfl⟩ : held ∈ t.held ∧ held.batch = b := by simpa [settles] using hsettles
    exact settle_traced h now hmem hP.2
  | setHandler now handler =>
    cases hnext
    refine ⟨h.books, ?_⟩
    unfold setHeartbeatWakeHandler
    dsimp only
    split_ifs
    · refine Waits.schedule ?_ _ _ _
      exact h.waits
    · exact h.waits
    · refine Waits.schedule ?_ _ _ _
      exact h.waits
    · exact h.waits
  | dispose generation handler =>
    obtain ⟨-, ⟨⟩⟩ := Option.ite_none_right_eq_some.mp hnext
    refine ⟨h.books, ?_⟩
    unfold dispose
    split_ifs <;> exact h.waits

/-! ### Runs -/

theorem exec_traced {as : List (Action × HeldBatch)} {t u : Traced}
    (h : exec tracedNext t as = some u) : exec next t.state (as.map Prod.fst) = some u.state := by
  induction as generalizing t with
  | nil => cases h; rfl
  | cons a as ih =>
    obtain ⟨t', hs, h⟩ := (exec_cons_eq_some _).mp h
    obtain ⟨-, s', hnext, rfl⟩ := tracedNext_eq_some.mp hs
    exact (exec_cons_eq_some _).mpr ⟨s', hnext, ih h⟩

/-- A run is one with the book-keeping. -/
theorem traced_of_exec {as : List Action} {t : Traced} (ht : Mirrors t t.state) {s : State}
    (h : exec next t.state as = some s) :
    ∃ as' u, as'.map Prod.fst = as ∧ exec tracedNext t as' = some u ∧ u.state = s := by
  induction as generalizing t with
  | nil =>
    cases h
    exact ⟨[], t, rfl, rfl, rfl⟩
  | cons a as ih =>
    obtain ⟨s', hnext, h⟩ := (exec_cons_eq_some _).mp h
    -- a call that settles is that of a batch in progress
    have hheld : ∃ held, settles t held a = true := by
      cases a with
      | settle now b outcome =>
        obtain ⟨hb, -⟩ := Option.ite_none_right_eq_some.mp hnext
        obtain ⟨held, hmem, hbatch⟩ := List.mem_map.mp (ht.batches.mem_iff.mpr hb)
        exact ⟨held, by simp [settles, hmem, hbatch]⟩
      | request | fire | setHandler | dispose => exact ⟨⟨0, 0, [], ⟨⟨"", 0, 0, none, none⟩, []⟩, []⟩, rfl⟩
    obtain ⟨held, hheld⟩ := hheld
    have hs : tracedNext t (a, held) = some { t.book a held with state := s' } :=
      tracedNext_eq_some.mpr ⟨hheld, s', hnext, rfl⟩
    obtain ⟨as', u, has, hu, hus⟩ := ih (tracedNext_mirrors ht hs) h
    exact ⟨(a, held) :: as', u, congrArg _ has, (exec_cons_eq_some _).mpr ⟨_, hs, hu⟩, hus⟩

/-- What a step adds to the calls: at most one, for the wake that a batch now waits for. -/
theorem book_called (a : Action) (held : HeldBatch) :
    t.served ⊆ (t.book a held).served ∧ ((t.book a held).called = t.called ∨
      ∃ h ∈ (t.book a held).held, (t.book a held).called =
        t.called ++ [(callFor h.active h.current.wake, h.current.requests)]) := by
  have hgoOn (t : Traced) (active : Handler) (delay : ℚ) (settled todo : List HeldWake) :
      (t.goOn active delay settled todo).served = t.served ∧
        ((t.goOn active delay settled todo).called = t.called ∨
          ∃ h ∈ (t.goOn active delay settled todo).held,
            (t.goOn active delay settled todo).called =
              t.called ++ [(callFor h.active h.current.wake, h.current.requests)]) := by
    cases todo with
    | nil => exact ⟨rfl, .inl rfl⟩
    | cons w rest =>
      exact ⟨rfl, .inr ⟨_, mem_append_right _ (mem_singleton_self _), rfl⟩⟩
  cases a with
  | request now opts => exact ⟨List.Subset.refl _, .inl rfl⟩
  | setHandler now handler => exact ⟨List.Subset.refl _, .inl rfl⟩
  | dispose generation handler => exact ⟨List.Subset.refl _, .inl rfl⟩
  | fire now τ =>
    unfold Traced.book
    dsimp only
    cases t.state.handler with
    | none => exact ⟨List.Subset.refl _, .inl rfl⟩
    | some active =>
      dsimp only
      split_ifs
      · exact ⟨List.Subset.refl _, .inl rfl⟩
      · obtain ⟨hserved, hcalled⟩ := hgoOn { t with waiting := [] } active τ.delay [] t.wakes
        exact ⟨by rw [hserved]; exact List.Subset.refl _, hcalled⟩
  | settle now b outcome =>
    cases outcome with
    | threw => exact ⟨List.Subset.refl _, .inl rfl⟩
    | returned res =>
      have hresolved : t.served ⊆ (Traced.resolved { t with held := t.held.erase held } held res).served ∧
          (Traced.resolved { t with held := t.held.erase held } held res).called = t.called := by
        cases res with
        | ran => exact ⟨subset_append_left _ _, rfl⟩
        | failed => exact ⟨List.Subset.refl _, rfl⟩
        | skipped reason =>
          rw [Traced.resolved]
          split <;> exact ⟨List.Subset.refl _, rfl⟩
      obtain ⟨hserved, hcalled⟩ := hgoOn
        (Traced.resolved { t with held := t.held.erase held } held res) held.active held.delay
        (held.settled ++ [held.current]) held.rest
      rw [hresolved.2] at hcalled
      exact ⟨hserved ▸ hresolved.1, hcalled⟩

/-- The calls since the state `t` are each for a request for their target, and for none that had
been served in `t`. -/
def CallsOnce (t u : Traced) : Prop :=
  ∀ c ∈ u.called.drop t.called.length,
    c.2 ≠ [] ∧ ∀ n ∈ c.2, u.targets[n]? = some c.1.targetKey ∧ n ∉ t.served

/-- How a later state `u` of a run stands to an earlier one. -/
structure Later (t u : Traced) : Prop where
  /-- Requests keep their numbers. -/
  targets : t.targets <+: u.targets
  /-- Calls are not taken back. -/
  called : t.called <+: u.called
  /-- What has been served has been served. -/
  served : t.served ⊆ u.served
  once : CallsOnce t u

instance (t u : Traced) : Decidable (CallsOnce t u) := by
  unfold CallsOnce
  infer_instance

theorem Later.refl : Later t t where
  targets := prefix_rfl
  called := prefix_rfl
  served := List.Subset.refl _
  once := by rw [CallsOnce, drop_length]; exact fun _ h => by cases h

theorem book_targets (a : Action) (held : HeldBatch) : t.targets <+: (t.book a held).targets := by
  have hgoOn (t : Traced) (active : Handler) (delay : ℚ) (settled todo : List HeldWake) :
      (t.goOn active delay settled todo).targets = t.targets := by cases todo <;> rfl
  cases a with
  | request now opts => exact prefix_append _ _
  | setHandler now handler => exact prefix_rfl
  | dispose generation handler => exact prefix_rfl
  | fire now τ =>
    unfold Traced.book
    dsimp only
    split
    · exact prefix_rfl
    · split_ifs
      · exact prefix_rfl
      · simp only [hgoOn, prefix_rfl]
  | settle now b outcome =>
    cases outcome with
    | threw => exact prefix_rfl
    | returned res =>
      rw [Traced.book, hgoOn]
      cases res with
      | ran => exact prefix_rfl
      | failed => exact prefix_rfl
      | skipped reason => rw [Traced.resolved]; split <;> exact prefix_rfl

theorem Later.step {t u u' : Traced} {a : Action × HeldBatch} (h : Later t u)
    (hs : tracedNext u a = some u') (hinv : TracedInv u') : Later t u' := by
  obtain ⟨a, held⟩ := a
  obtain ⟨-, s', -, rfl⟩ := tracedNext_eq_some.mp hs
  obtain ⟨hserved, hcalled⟩ := book_called u a held
  have htargets := book_targets u a held
  have hold : ∀ c ∈ u.called.drop t.called.length, c.2 ≠ [] ∧ ∀ n ∈ c.2,
      (u.book a held).targets[n]? = some c.1.targetKey ∧ n ∉ t.served := by
    refine fun c hc => ⟨(h.once c hc).1, fun n hn => ⟨?_, ((h.once c hc).2 n hn).2⟩⟩
    obtain ⟨more, hmore⟩ := htargets
    have hn := ((h.once c hc).2 n hn).1
    rw [← hmore, getElem?_append_left (List.getElem?_eq_some_iff.mp hn).1]
    exact hn
  refine ⟨h.targets.trans htargets, ?_, fun n hn => hserved (h.served hn), ?_⟩
  · rcases hcalled with hcalled | ⟨b, -, hcalled⟩
    · exact hcalled ▸ h.called
    · exact h.called.trans (hcalled ▸ prefix_append _ _)
  · rcases hcalled with hcalled | ⟨b, hb, hcalled⟩
    · rw [CallsOnce]
      exact hcalled ▸ hold
    · intro c hc
      rw [hcalled, drop_append_of_le_length h.called.length_le] at hc
      rcases mem_append.mp hc with hc | hc
      · exact hold c hc
      · obtain rfl := mem_singleton.mp hc
        have hok := hinv.books.held b hb b.current (by simp)
        refine ⟨hok.1, fun n hn => ⟨hok.2 n hn, fun hserved' => ?_⟩⟩
        refine (hinv.books.done n (hserved (h.served hserved'))).2 ?_
        exact mem_append_right _ (mem_flatMap.mpr ⟨b, hb, mem_append_left _ hn⟩)

/-- **The handler runs once**: when every step is undisturbed, at most one batch of the registered
handler is in progress, and every call is for a request for its target that no call has served. -/
theorem handler_runs_once {as bs : List (Action × HeldBatch)} {t u : Traced}
    (h : exec tracedNext .init as = some t) (hP : Meets tracedNext Undisturbed .init as)
    (h' : exec tracedNext t bs = some u) (hP' : Meets tracedNext Undisturbed t bs) :
    (t.state.batches.countP fun b => some b.active = t.state.handler) ≤ 1 ∧
      u.called.map Prod.fst = u.state.calls ∧ CallsOnce t u := by
  have hinit : TracedInv .init ∧ Alone Traced.init.state := ⟨init_traced, Nat.zero_le _⟩
  have hmirrors : Mirrors u u.state :=
    exec_invariant (fun _ _ _ hi hs => tracedNext_mirrors hi hs)
      (exec_invariant (I := fun t => Mirrors t t.state) (fun _ _ _ hi hs => tracedNext_mirrors hi hs)
        ⟨List.Perm.refl _, rfl⟩ h) h'
  have hstep : ∀ t a t', (TracedInv t ∧ Alone t.state) → Undisturbed t a →
      tracedNext t a = some t' → TracedInv t' ∧ Alone t'.state := fun t a t' hi hP hs =>
    ⟨tracedNext_inv hi.1 hP hs, tracedNext_alone hi.2 hP hs⟩
  have ht := exec_invariant_of_meets hstep hP hinit h
  have hu : (TracedInv u ∧ Alone u.state) ∧ Later t u :=
    exec_invariant_of_meets (I := fun u => (TracedInv u ∧ Alone u.state) ∧ Later t u)
      (fun u a u' hi hP hs =>
        ⟨hstep u a u' hi.1 hP hs, hi.2.step hs (hstep u a u' hi.1 hP hs).1⟩)
      hP' ⟨ht, Later.refl t⟩ h'
  refine ⟨ht.2.trans ?_, hmirrors.called, hu.2.once⟩
  cases t.state.running <;> decide

/-! ### Two runs -/

/-- A request for an agent. -/
def wakeFor (agentId : String) : WakeRequest := ⟨some "hook:a", none, some agentId, none⟩

/-- The wake it makes at `now`, as the request with the number `n`. -/
def heldWake (now : ℚ) (agentId : String) (n : ℕ) : HeldWake :=
  ⟨mkWake now (some "hook:a") (some agentId) none, [n]⟩

/-- The batch of the handler `active` for one request. -/
def singleBatch (now : ℚ) (agentId : String) (n : ℕ) : HeldBatch :=
  ⟨active, 250, [], heldWake now agentId n, []⟩

/-- Steps in which no call settles. -/
def plain (as : List Action) : List (Action × HeldBatch) := as.map (·, singleBatch 0 0 "" 0)

/-- A call settles. -/
def settling (now : ℚ) (h : HeldBatch) (outcome : Outcome) : Action × HeldBatch :=
  (.settle now h.batch outcome, h)

/-- The first handler is replaced while its call is awaited; the batch that is interrupted ends
while one of the second handler is in progress. -/
def overlapRun : List (Action × HeldBatch) :=
  plain [.setHandler 0 (some 1), .request 0 (wakeFor "a"), .fire 250 ⟨0, 250, .normal⟩,
    .setHandler 300 (some 2), .request 300 (wakeFor "b"), .fire 550 ⟨1, 250, .normal⟩] ++
  settling 600 (singleBatch 1 0 "a" 0) (.returned (.ran (.fin 1))) ::
  plain [.request 600 (wakeFor "c"), .fire 850 ⟨2, 250, .normal⟩]

/-- A batch of two, of which the first has run. -/
def ranRun : List (Action × HeldBatch) :=
  plain [.setHandler 0 (some 1), .request 0 (wakeFor "a"), .request 0 (wakeFor "b"),
    .fire 250 ⟨0, 250, .normal⟩] ++
  [settling 300 ⟨1, 250, [], heldWake 0 "a" 0, [heldWake 0 "b" 1]⟩ (.returned (.ran (.fin 1)))]

/-- The call for the second throws, and the retry timer fires. -/
def retryRun : List (Action × HeldBatch) :=
  settling 400 ⟨1, 250, [heldWake 0 "a" 0], heldWake 0 "b" 1, []⟩ .threw ::
  plain [.fire 1400 ⟨1, 1000, .retry⟩]

/-- The state in which the first of the two has run. -/
def ranState : Traced := (exec tracedNext .init ranRun).getD .init

/-- **Batches overlap and wakes are run again**: two batches of the registered handler are in
progress, and the handler is called again for a request for which a call has returned `ran`. -/
theorem handler_overlaps_and_repeats :
    (∃ t, exec tracedNext .init overlapRun = some t ∧
      (t.state.batches.countP fun b => some b.active = t.state.handler) = 2) ∧
    ∃ u, exec tracedNext .init ranRun = some ranState ∧ exec tracedNext ranState retryRun = some u ∧
      ¬ CallsOnce ranState u := by
  have hoverlap : ((exec tracedNext .init overlapRun).map fun t =>
      t.state.batches.countP fun b => some b.active = t.state.handler) = some 2 := by
    decide +kernel
  have hretry : ((exec tracedNext ranState retryRun).map fun u => decide (CallsOnce ranState u)) =
      some false := by
    decide +kernel
  obtain ⟨t, ht, hcount⟩ := Option.map_eq_some_iff.mp hoverlap
  obtain ⟨u, hu, honce⟩ := Option.map_eq_some_iff.mp hretry
  exact ⟨⟨t, ht, hcount⟩, u, by decide +kernel, hu, of_decide_eq_false honce⟩

/-- A second request comes after the first has run. -/
def againRun : List (Action × HeldBatch) :=
  plain [.request 500 (wakeFor "a"), .fire 750 ⟨1, 250, .normal⟩]

/-- One request has run. -/
def servedRun : List (Action × HeldBatch) :=
  plain [.setHandler 0 (some 1), .request 0 (wakeFor "a"), .fire 250 ⟨0, 250, .normal⟩] ++
  [settling 300 (singleBatch 1 0 "a" 0) (.returned (.ran (.fin 1)))]

/-- The state in which it has. -/
def servedState : Traced := (exec tracedNext .init servedRun).getD .init

/-- The state after the second request has been passed on. -/
def againState : Traced := (exec tracedNext servedState againRun).getD .init

theorem handler_runs_once_again :
    (servedState.state.batches.countP fun b => some b.active = servedState.state.handler) ≤ 1 ∧
      againState.called.map Prod.fst = againState.state.calls ∧ CallsOnce servedState againState :=
  @handler_runs_once servedRun againRun _ _ (by decide +kernel) (by decide +kernel)
    (by decide +kernel) (by decide +kernel)

end Foxclaw.Infra.HeartbeatWake
