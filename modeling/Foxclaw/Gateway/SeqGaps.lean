import Foxclaw.Gateway.AgentEventHandler

/-!
# Gaps that are reported

Each event that is emitted comes to the handler, at the latest when the emission it belongs to is over. So a
gap that is reported is real only if the handler never gets one of the run's earlier events, and that does
not happen. It reports gaps nevertheless: its counter of a run is dropped when the run ends or is aborted,
while the emitter goes on counting, and a listener that emits before the handler is called brings the later
event first.

## What is proved

* `Exact.next` — what a step keeps that meets `Steady`.
* `truthful_of_steady` — in a run of such steps no gap is reported for a run all of whose events come.
* `false_gaps` — three runs with gaps that are none.
-/

namespace Foxclaw.Gateway.AgentEventHandler

open List Option Infra.AgentEvents

variable {L : Type} [DecidableEq L]

/-- The event of an emission that the handler has not got yet. -/
def Frame.waiting (listeners : JsSet (Listener L)) : Frame → Option AgentEventPayload
  | .emit evt pos _ => if listeners.Ahead pos .gateway then some evt else none
  | .abort _ _ => none

/-- The events on their way to the handler. -/
def System.waiting (s : System L) : List AgentEventPayload :=
  s.stack.filterMap (Frame.waiting s.maps.events.listeners)

/-- An event of a run is on its way to the handler. -/
def System.Awaited (s : System L) (runId : String) : Prop := runId ∈ s.waiting.map (·.runId)

instance (s : System L) (runId : String) : Decidable (s.Awaited runId) :=
  inferInstanceAs (Decidable (_ ∈ _))

/-- A gap was reported only where the handler never got an earlier event of the run. -/
def Truthful (s : System L) : Prop :=
  ∀ gap ∈ s.gaps, ∃ evt ∈ s.emitted, evt.runId = gap.source ∧ evt.seq < gap.received ∧
    evt ∉ s.delivered ∧ evt ∉ s.waiting

instance (s : System L) : Decidable (Truthful s) := inferInstanceAs (Decidable (∀ gap ∈ s.gaps, _))

/-- The condition on a step: a run whose counter has lapsed emits no more, nor does one with an event on
its way, and no counter is dropped over such an event. -/
def Steady (s : System L) : Action L → Prop
  | .emit event => event.runId ∉ s.lapsed ∧ ¬ s.Awaited event.runId
  | .proceed w =>
    match s.stack with
    | .emit evt pos _ :: _ =>
      (s.maps.events.listeners.next pos).map Prod.snd = some .gateway → w.sendThrows = false →
        isOver evt = true → s.maps.clientRunId evt.runId ≠ evt.runId →
        s.maps.agentRunSeq.has (s.maps.clientRunId evt.runId) = true →
        ¬ s.Awaited (s.maps.clientRunId evt.runId)
    | _ => True
  | .finishAbort =>
    match s.stack with
    | .abort runId _ :: _ => s.maps.agentRunSeq.has runId = true → ¬ s.Awaited runId
    | _ => True
  | _ => True

instance decidableSteady (s : System L) (a : Action L) : Decidable (Steady s a) :=
  match a with
  | .emit _ => inferInstanceAs (Decidable (_ ∧ _))
  | .proceed w =>
    match h : s.stack with
    | .emit evt pos calling :: rest =>
      decidable_of_iff ((s.maps.events.listeners.next pos).map Prod.snd = some .gateway →
          w.sendThrows = false → isOver evt = true → s.maps.clientRunId evt.runId ≠ evt.runId →
          s.maps.agentRunSeq.has (s.maps.clientRunId evt.runId) = true →
          ¬ s.Awaited (s.maps.clientRunId evt.runId)) (by rw [Steady, h])
    | [] | .abort _ _ :: _ => isTrue (by rw [Steady, h]; trivial)
  | .finishAbort =>
    match h : s.stack with
    | .abort runId sessionKey :: rest =>
      decidable_of_iff (s.maps.agentRunSeq.has runId = true → ¬ s.Awaited runId) (by rw [Steady, h])
    | [] | .emit _ _ _ :: _ => isTrue (by rw [Steady, h]; trivial)
  | .abort _ _ | .change _ => isTrue trivial

/-! ### What the functions change -/

/-- What a map has lost are the entries of some keys. -/
def Shrinks (keys : List String) (before after : JsMap String ℕ) : Prop :=
  ∀ runId, after.get? runId = if runId ∈ keys then none else before.get? runId

theorem Shrinks.refl (m : JsMap String ℕ) : Shrinks [] m m := fun _ => rfl

theorem Shrinks.delete (m : JsMap String ℕ) (runId : String) : Shrinks [runId] m (m.delete runId) := by
  intro r
  rw [JsMap.get?_delete]
  by_cases h : runId = r <;> simp [h, eq_comm]

theorem Shrinks.trans {ks ls : List String} {m₁ m₂ m₃ : JsMap String ℕ} (h : Shrinks ks m₁ m₂)
    (h' : Shrinks ls m₂ m₃) : Shrinks (ks ++ ls) m₁ m₃ := by
  intro r
  rw [h' r, h r]
  by_cases hk : r ∈ ks <;> by_cases hl : r ∈ ls <;> simp [hk, hl]

variable {r : String}

variable {after before : JsMap String ℕ}

theorem mem_droppedRuns : r ∈ droppedRuns before after ↔ before.has r = true ∧ after.get? r = none := by
  simp [droppedRuns, JsMap.mem_keys_iff, JsMap.has]

variable {keys : List String}

/-- A run that is not among the dropped ones has the counter it had. -/
theorem Shrinks.get?_of_notMem (h : Shrinks keys before after) (hr : r ∉ droppedRuns before after) :
    after.get? r = before.get? r := by
  rw [h r]
  split
  · rename_i hk
    by_contra hne
    refine hr (mem_droppedRuns.mpr ⟨?_, by rw [h r, if_pos hk]⟩)
    exact isSome_iff_ne_none.mpr (Ne.symm hne)
  · rfl

/-- A run among the keys that has no counter has none afterwards. -/
theorem Shrinks.get?_of_has (h : Shrinks keys before after) (hr : r ∈ keys → before.has r = false) :
    after.get? r = before.get? r := by
  rw [h r]
  split
  · rename_i hk
    exact (not_isSome_iff_eq_none.mp (Bool.eq_false_iff.mp (hr hk))).symm
  · rfl

namespace Maps

variable {g : Maps L} {evt : AgentEventPayload}

omit [DecidableEq L] in
theorem closeRun_shrinks (runId clientRunId : String) :
    Shrinks [runId, clientRunId] g.agentRunSeq (g.closeRun runId clientRunId).agentRunSeq :=
  (Shrinks.delete _ _).trans (Shrinks.delete _ _)

/-- What the handler leaves alone. -/
structure Kept (g g' : Maps L) : Prop where
  seqByRun : g'.events.seqByRun = g.events.seqByRun
  listeners : g'.events.listeners = g.events.listeners

omit [DecidableEq L] in
theorem registerAgentRunContext_kept (e : Emitter (Listener L)) (runId : String) (context : AgentRunContext) :
    (e.registerAgentRunContext runId context).seqByRun = e.seqByRun ∧
      (e.registerAgentRunContext runId context).listeners = e.listeners := by
  unfold Emitter.registerAgentRunContext
  split
  · exact ⟨rfl, rfl⟩
  · split <;> exact ⟨rfl, rfl⟩

omit [DecidableEq L] in
theorem finishRun_spec (runId clientRunId : String) (chatLink : Option ChatRunEntry)
    (sessionKey : Option String) (visible aborted : Bool) :
    Kept g (g.finishRun runId clientRunId chatLink sessionKey visible aborted) ∧
      ((g.finishRun runId clientRunId chatLink sessionKey visible aborted).agentRunSeq = g.agentRunSeq ∨
        Shrinks [runId, clientRunId] g.agentRunSeq
          (g.finishRun runId clientRunId chatLink sessionKey visible aborted).agentRunSeq) := by
  unfold finishRun
  split
  · split
    · exact ⟨⟨rfl, rfl⟩, .inr (closeRun_shrinks (g := { g with abortedRuns := _, registry := _ }) _ _)⟩
    · split
      · split
        · exact ⟨⟨rfl, rfl⟩, .inl rfl⟩
        · exact ⟨⟨rfl, rfl⟩, .inr (closeRun_shrinks (g := { g with registry := _ }) _ _)⟩
      · exact ⟨⟨rfl, rfl⟩, .inr (closeRun_shrinks _ _)⟩
  · exact ⟨⟨rfl, rfl⟩, .inr (closeRun_shrinks _ _)⟩

/-- What the handler does with an event that it counts. -/
structure Counts (g : Maps L) (evt : AgentEventPayload) (sendThrows : Bool) (handled : Handled L) :
    Prop where
  kept : Kept g handled.maps
  counted : handled.counted = true
  /-- It reports no gap when the number is the next one. -/
  gap : evt.seq = (g.agentRunSeq.get? evt.runId).getD 0 + 1 → handled.gap = none
  /-- It stores the number, and may drop counters if the run is over. -/
  seqs : handled.maps.agentRunSeq = g.agentRunSeq.set evt.runId evt.seq ∨
    sendThrows = false ∧ isOver evt = true ∧
      Shrinks [evt.runId, g.clientRunId evt.runId] (g.agentRunSeq.set evt.runId evt.seq)
        handled.maps.agentRunSeq

omit [DecidableEq L] in
theorem handleWith_counts (sessionKey : Option String) (visible sendThrows : Bool) :
    Counts g evt sendThrows
      (g.handleWith evt (g.registry.peek evt.runId) sessionKey visible sendThrows) := by
  have hfinish := finishRun_spec (g := { g with agentRunSeq := g.agentRunSeq.set evt.runId evt.seq })
    evt.runId (g.clientRunId evt.runId) (g.registry.peek evt.runId) sessionKey visible
    (decide (g.clientRunId evt.runId ∈ g.abortedRuns ∨ evt.runId ∈ g.abortedRuns))
  have hgap (h : evt.seq = (g.agentRunSeq.get? evt.runId).getD 0 + 1) :
      (g.handleWith evt (g.registry.peek evt.runId) sessionKey visible sendThrows).gap = none :=
    if_neg fun hne => hne h
  unfold handleWith at hgap ⊢
  by_cases hover : (!sendThrows && isOver evt) = true
  · simp only [hover, if_true]
    obtain ⟨hsend, hover⟩ := Bool.and_eq_true_iff.mp hover
    refine ⟨⟨hfinish.1.seqByRun, hfinish.1.listeners⟩, rfl, hgap, hfinish.2.imp id fun h => ?_⟩
    exact ⟨by simpa using hsend, hover, h⟩
  · simp only [hover, Bool.false_eq_true, if_false]
    exact ⟨⟨rfl, rfl⟩, rfl, hgap, .inl rfl⟩

omit [DecidableEq L] in
/-- The handler counts the event, or a look-up throws and it does nothing. -/
theorem handle_spec (g : Maps L) (evt : AgentEventPayload) (w : World) :
    Counts g evt w.sendThrows (g.handle evt w) ∨ g.handle evt w = { maps := g, counted := false } := by
  unfold handle resolveSessionKeyForRun
  dsimp only
  cases (Option.map (·.sessionKey) (g.registry.peek evt.runId)).or (eventSessionKey evt.sessionKey) with
  | some key => exact .inl (handleWith_counts _ _ _)
  | none =>
    cases truthy (g.events.contextSessionKey evt.runId) with
    | some key => exact .inl (handleWith_counts _ _ _)
    | none =>
      cases w.lookup with
      | throws => exact .inr rfl
      | cached key => exact .inl (handleWith_counts _ _ _)
      | missing => exact .inl (handleWith_counts _ _ _)
      | stored key =>
        obtain ⟨hseqs, hlisteners⟩ := registerAgentRunContext_kept g.events evt.runId { sessionKey := some key }
        have hspec : Counts { g with events := g.events.registerAgentRunContext evt.runId { sessionKey := some key } }
            evt w.sendThrows _ := handleWith_counts (some key) (g.events.isControlUiVisible evt.runId) w.sendThrows
        obtain ⟨hkept, hcounted, hgap, hdrop⟩ := hspec
        exact .inl ⟨⟨hkept.seqByRun.trans hseqs, hkept.listeners.trans hlisteners⟩, hcounted, hgap, hdrop⟩

theorem change_kept (c : Change L) :
    (g.change c).events.seqByRun = g.events.seqByRun ∧ (g.change c).agentRunSeq = g.agentRunSeq := by
  cases c with
  | registerAgentRunContext runId context => exact ⟨(registerAgentRunContext_kept _ _ _).1, rfl⟩
  | _ => exact ⟨rfl, rfl⟩

/-- A change does not keep an emission from the handler. -/
theorem change_listeners (hg : Listener.gateway ∈ g.events.listeners) (c : Change L) :
    Listener.gateway ∈ (g.change c).events.listeners ∧
      ∀ pos, (g.change c).events.listeners.Ahead pos .gateway ↔ g.events.listeners.Ahead pos .gateway := by
  cases c with
  | onAgentEvent listener => exact ⟨JsSet.mem_add hg, fun _ => JsSet.ahead_add hg⟩
  | offAgentEvent listener =>
    exact ⟨JsSet.mem_delete (by simp) hg, fun _ => JsSet.ahead_delete (by simp)⟩
  | registerAgentRunContext runId context =>
    have hlisteners := (registerAgentRunContext_kept g.events runId context).2
    rw [show (g.change (.registerAgentRunContext runId context)).events.listeners = g.events.listeners
      from hlisteners]
    exact ⟨hg, fun _ => Iff.rfl⟩
  | _ => exact ⟨hg, fun _ => Iff.rfl⟩

end Maps

/-- A chat run that is removed is the one that was named. -/
theorem ChatRunRegistry.clientRunId_of_remove {r : ChatRunRegistry} {sessionId clientRunId : String}
    {sessionKey : Option String} {entry : ChatRunEntry}
    (h : (r.remove sessionId clientRunId sessionKey).1 = some entry) : entry.clientRunId = clientRunId := by
  unfold ChatRunRegistry.remove at h
  split at h
  · cases h
  · split at h
    · cases h
    · rename_i idx hidx
      obtain ⟨hlt, hentry, -⟩ := findIdx?_eq_some_iff_getElem.mp hidx
      obtain rfl : _ = entry := some.inj ((getElem?_eq_getElem hlt).symm.trans h)
      simp only [decide_eq_true_eq] at hentry
      exact hentry.1

omit [DecidableEq L] in
/-- An abort drops the counter of its run. -/
theorem Maps.finishAbort_shrinks (g : Maps L) (runId sessionKey : String) :
    ∃ keys, (∀ k ∈ keys, k = runId) ∧
      Shrinks keys g.agentRunSeq (g.finishAbort runId sessionKey).agentRunSeq := by
  unfold Maps.finishAbort
  dsimp only
  split
  · exact ⟨[runId], by simp, Shrinks.delete _ _⟩
  · rename_i clientRunId hremoved
    obtain ⟨entry, hentry, rfl⟩ := map_eq_some_iff.mp (filter_eq_some_iff.mp hremoved).1
    rw [ChatRunRegistry.clientRunId_of_remove hentry]
    exact ⟨[runId] ++ [runId], by simp, (Shrinks.delete _ _).trans (Shrinks.delete _ _)⟩

/-! ### Steps -/

/-- Two states that differ in nothing that is counted. -/
structure Same (s s' : System L) : Prop where
  seqByRun : s'.maps.events.seqByRun = s.maps.events.seqByRun
  agentRunSeq : s'.maps.agentRunSeq = s.maps.agentRunSeq
  waiting : s'.waiting = s.waiting
  emitted : s'.emitted = s.emitted
  delivered : s'.delivered = s.delivered
  gaps : s'.gaps = s.gaps
  lapsed : s'.lapsed = s.lapsed

/-- What a step does to the counters. -/
inductive Step (s : System L) : Action L → System L → Prop where
  | emit (event : AgentEvent) {s' : System L}
      (hs : s' = { s with
        maps := { s.maps with events := (s.maps.events.emitAgentEvent event).1 }
        stack := .emit (s.maps.events.emitAgentEvent event).2 0 false :: s.stack
        emitted := (s.maps.events.emitAgentEvent event).2 :: s.emitted })
      (hwaiting : s'.waiting = (s.maps.events.emitAgentEvent event).2 :: s.waiting) : Step s (.emit event) s'
  /-- The handler is called with the event of the innermost emission. -/
  | deliver (evt : AgentEventPayload) (w : World) (pos k : ℕ) (calling : Bool) (rest : List Frame)
      {s' : System L} (hstack : s.stack = .emit evt pos calling :: rest)
      (hnext : s.maps.events.listeners.next pos = some (k, .gateway))
      (hs : s' = { s.deliver evt w with stack := .emit evt (k + 1) false :: rest })
      (hwaiting : s.waiting = evt :: s'.waiting) : Step s (.proceed w) s'
  | finishAbort (runId sessionKey : String) (rest : List Frame) {s' : System L}
      (hstack : s.stack = .abort runId sessionKey :: rest)
      (hs : s' = { s with
        maps := s.maps.finishAbort runId sessionKey, stack := rest
        lapsed := droppedRuns s.maps.agentRunSeq (s.maps.finishAbort runId sessionKey).agentRunSeq ++ s.lapsed })
      (hwaiting : s'.waiting = s.waiting) : Step s .finishAbort s'
  | idle {a : Action L} {s' : System L} (hsame : Same s s') : Step s a s'

/-- The handler is registered. -/
def Registered (s : System L) : Prop := Listener.gateway ∈ s.maps.events.listeners

theorem System.waiting_cons (s : System L) (frame : Frame) (rest : List Frame) (h : s.stack = frame :: rest) :
    s.waiting = (frame.waiting s.maps.events.listeners).toList ++
      rest.filterMap (Frame.waiting s.maps.events.listeners) := by
  rw [System.waiting, h, filterMap_cons]
  cases frame.waiting s.maps.events.listeners <;> rfl

variable {s s' : System L} {a : Action L}

theorem registered_start (earlier : List L) : Registered (System.start earlier) := JsSet.mem_add_self

/-- Every step is one of these, and the handler stays registered. -/
theorem step_of_next (hreg : Registered s) (h : next s a = some s') : Step s a s' ∧ Registered s' := by
  cases a with
  | emit event =>
    obtain ⟨-, ⟨⟩⟩ := ite_none_right_eq_some.mp h
    refine ⟨.emit event rfl ?_, hreg⟩
    rw [System.waiting_cons _ _ _ rfl, Frame.waiting, if_pos (JsSet.ahead_zero.mpr hreg)]
    rfl
  | proceed w =>
    rw [next] at h
    split at h
    · rename_i evt pos calling rest hstack
      have hcons := System.waiting_cons s _ _ hstack
      split at h
      · rename_i hnext
        cases h
        refine ⟨.idle ⟨rfl, rfl, ?_, rfl, rfl, rfl, rfl⟩, hreg⟩
        rw [hcons, Frame.waiting, if_neg (JsSet.not_ahead_of_next_none hnext)]
        rfl
      · rename_i k hnext
        cases h
        have hkept : (s.maps.handle evt w).maps.events.listeners = s.maps.events.listeners := by
          rcases Maps.handle_spec s.maps evt w with hspec | hspec
          · exact hspec.kept.listeners
          · rw [hspec]
        refine ⟨.deliver evt w pos k calling rest hstack hnext rfl ?_, ?_⟩
        · rw [hcons, System.waiting_cons _ _ _ rfl]
          change _ = evt :: ((Frame.waiting (s.maps.handle evt w).maps.events.listeners _).toList ++
            rest.filterMap (Frame.waiting (s.maps.handle evt w).maps.events.listeners))
          have hpos := JsSet.mem_of_next hnext
          rw [hkept, Frame.waiting, Frame.waiting, if_pos ⟨k, hpos⟩, if_neg (JsSet.not_ahead_of_next hnext)]
          rfl
        · change Listener.gateway ∈ (s.maps.handle evt w).maps.events.listeners
          rw [hkept]
          exact hreg
      · rename_i k listener hnext
        cases h
        refine ⟨.idle ⟨rfl, rfl, ?_, rfl, rfl, rfl, rfl⟩, hreg⟩
        rw [hcons, System.waiting_cons _ _ _ rfl]
        simp only [Frame.waiting, JsSet.ahead_of_next_ne hnext (show Listener.gateway ≠ .other listener by simp)]
    · cases h
  | abort runId sessionKey =>
    obtain ⟨-, h⟩ := ite_none_right_eq_some.mp h
    unfold Maps.abortChatRunById at h
    split at h
    · cases h
      exact ⟨.idle ⟨rfl, rfl, rfl, rfl, rfl, rfl, rfl⟩, hreg⟩
    · rename_i maps hmaps
      cases h
      split at hmaps
      · cases hmaps
      · obtain ⟨-, ⟨⟩⟩ := ite_none_left_eq_some.mp hmaps
        exact ⟨.idle ⟨rfl, rfl, rfl, rfl, rfl, rfl, rfl⟩, hreg⟩
  | finishAbort =>
    rw [next] at h
    split at h
    · rename_i runId sessionKey rest hstack
      cases h
      refine ⟨.finishAbort runId sessionKey rest hstack rfl ?_, hreg⟩
      rw [System.waiting_cons s _ _ hstack]
      rfl
    · cases h
  | change c =>
    obtain ⟨-, ⟨⟩⟩ := ite_none_right_eq_some.mp h
    obtain ⟨hseq, hcount⟩ := Maps.change_kept (g := s.maps) c
    obtain ⟨hmem, hahead⟩ := Maps.change_listeners hreg c
    refine ⟨.idle ⟨hseq, hcount, ?_, rfl, rfl, rfl, rfl⟩, hmem⟩
    refine filterMap_congr fun frame _ => ?_
    cases frame with
    | emit evt pos calling => simp only [Frame.waiting, hahead]
    | abort runId sessionKey => rfl

/-! ### The counters agree -/

/-- The counters of the emitter and of the handler agree. -/
structure Exact (s : System L) : Prop where
  /-- Of a run at most one event is on its way. -/
  single : (s.waiting.map (·.runId)).Nodup
  /-- It is the one the handler expects, and the last that was emitted. -/
  expected : ∀ evt ∈ s.waiting, s.maps.events.seqByRun.get? evt.runId = some evt.seq ∧
    evt.seq = (s.maps.agentRunSeq.get? evt.runId).getD 0 + 1
  /-- Otherwise the handler has counted every event, or the run has lapsed. -/
  counted : ∀ runId, runId ∉ s.lapsed → ¬ s.Awaited runId →
    s.maps.agentRunSeq.get? runId = s.maps.events.seqByRun.get? runId
  /-- No gap was reported. -/
  gaps : s.gaps = []

variable {evt : AgentEventPayload}

theorem awaited_of_mem (h : evt ∈ s.waiting) : s.Awaited evt.runId :=
  List.mem_map_of_mem h

theorem Exact.start (earlier : List L) : Exact (System.start earlier) where
  single := nodup_nil
  expected := by simp [System.waiting, System.start]
  counted runId _ _ := by
    change JsMap.empty.get? runId =
      ((earlier.foldl registerOther {}).onAgentEvent .gateway).seqByRun.get? runId
    have hfold (e : Emitter (Listener L)) : (earlier.foldl registerOther e).seqByRun = e.seqByRun := by
      clear * -
      induction earlier generalizing e with
      | nil => rfl
      | cons l ls ih => exact ih (registerOther e l)
    rw [Emitter.onAgentEvent, hfold]
  gaps := rfl

/-- An event is emitted when all earlier ones of its run are counted. -/
theorem Exact.emit (h : Exact s) (event : AgentEvent) (hsteady : Steady s (.emit event))
    (hs : s' = { s with
      maps := { s.maps with events := (s.maps.events.emitAgentEvent event).1 }
      stack := .emit (s.maps.events.emitAgentEvent event).2 0 false :: s.stack
      emitted := (s.maps.events.emitAgentEvent event).2 :: s.emitted })
    (hwaiting : s'.waiting = (s.maps.events.emitAgentEvent event).2 :: s.waiting) : Exact s' := by
  obtain ⟨hlapsed, hawaited⟩ := hsteady
  have hagree := h.counted event.runId hlapsed hawaited
  have hseqs (r : String) : s'.maps.events.seqByRun.get? r =
      if event.runId = r then some ((s.maps.events.seqByRun.get? event.runId).getD 0 + 1)
      else s.maps.events.seqByRun.get? r := by
    subst hs
    exact JsMap.get?_set ..
  have hcounts : s'.maps.agentRunSeq = s.maps.agentRunSeq := by subst hs; rfl
  constructor
  · rw [hwaiting, map_cons]
    exact nodup_cons.mpr ⟨hawaited, h.single⟩
  · intro evt hevt
    rw [hwaiting] at hevt
    rw [hseqs, hcounts]
    rcases mem_cons.mp hevt with rfl | hevt
    · change (if event.runId = event.runId then _ else _) = some _ ∧ _ = (JsMap.get? _ event.runId).getD 0 + 1
      rw [if_pos rfl, hagree]
      exact ⟨rfl, rfl⟩
    · have hne : event.runId ≠ evt.runId := fun heq => hawaited (heq ▸ awaited_of_mem hevt)
      rw [if_neg hne]
      exact h.expected evt hevt
  · intro r hr hawait
    have hne : event.runId ≠ r := by
      rintro rfl
      exact hawait (by rw [System.Awaited, hwaiting]; exact mem_cons_self)
    rw [hseqs, hcounts, if_neg hne]
    refine h.counted r (by subst hs; exact hr) fun hold => hawait ?_
    rw [System.Awaited, hwaiting]
    exact mem_cons_of_mem _ hold
  · subst hs
    exact h.gaps

/-- What the handler does to a run with no event on its way any more, or with one that it goes on to expect. -/
theorem Exact.ofCounts (h : Exact s) {counted : JsMap String ℕ}
    (hdrop : Shrinks keys counted s'.maps.agentRunSeq)
    (hseq : s'.maps.events.seqByRun = s.maps.events.seqByRun) (hgaps : s'.gaps = [])
    (hsub : List.Sublist s'.waiting s.waiting) (hkeys : ∀ r ∈ keys, s'.Awaited r → counted.has r = false)
    (hsame : ∀ r, s'.Awaited r → counted.get? r = s.maps.agentRunSeq.get? r)
    (hlapsed : s'.lapsed = droppedRuns counted s'.maps.agentRunSeq ++ s.lapsed)
    (hother : ∀ r, r ∉ s.lapsed → ¬ s'.Awaited r → counted.get? r = s.maps.events.seqByRun.get? r) :
    Exact s' := by
  constructor
  · exact h.single.sublist (hsub.map _)
  · intro evt hevt
    have hawait := awaited_of_mem hevt
    rw [hseq, hdrop.get?_of_has fun hk => hkeys _ hk hawait, hsame _ hawait]
    exact h.expected evt (hsub.subset hevt)
  · intro r hr hawait
    rw [hlapsed, mem_append, not_or] at hr
    rw [hseq, hdrop.get?_of_notMem hr.1]
    exact hother r hr.2 hawait
  · exact hgaps

variable {rest : List Frame}

theorem Exact.deliver (h : Exact s) {w : World} {pos k : ℕ} {calling : Bool}
    (hsteady : Steady s (.proceed w)) (hstack : s.stack = .emit evt pos calling :: rest)
    (hnext : s.maps.events.listeners.next pos = some (k, .gateway))
    (hs : s' = { s.deliver evt w with stack := .emit evt (k + 1) false :: rest })
    (hwaiting : s.waiting = evt :: s'.waiting) : Exact s' := by
  obtain ⟨hlast, hexpected⟩ := h.expected evt (hwaiting ▸ mem_cons_self)
  have hsub : List.Sublist s'.waiting s.waiting := hwaiting ▸ sublist_cons_self _ _
  -- the run of the event has no other event on its way
  have hsingle : ¬ s'.Awaited evt.runId := by
    have hnodup := h.single
    rw [hwaiting, map_cons] at hnodup
    exact (nodup_cons.mp hnodup).1
  have hawait {r : String} : s.Awaited r ↔ r = evt.runId ∨ s'.Awaited r := by
    rw [System.Awaited, hwaiting, map_cons, mem_cons]
    rfl
  have hcounted (r : String) (hr : r ≠ evt.runId) :
      (s.maps.agentRunSeq.set evt.runId evt.seq).get? r = s.maps.agentRunSeq.get? r := by
    rw [JsMap.get?_set, if_neg hr.symm]
  have hne {r : String} (hr : s'.Awaited r) : r ≠ evt.runId := fun heq => hsingle (heq ▸ hr)
  have hmaps : s'.maps = (s.maps.handle evt w).maps := by subst hs; rfl
  rcases Maps.handle_spec s.maps evt w with hspec | hspec
  · -- it counts the event
    have hgaps : s'.gaps = [] := by
      subst hs
      change (s.maps.handle evt w).gap.toList ++ s.gaps = []
      rw [hspec.gap hexpected, h.gaps]
      rfl
    have hlapsed : s'.lapsed =
        droppedRuns (s.maps.agentRunSeq.set evt.runId evt.seq) s'.maps.agentRunSeq ++ s.lapsed := by
      rw [hmaps]
      subst hs
      change (if (s.maps.handle evt w).counted then _ else _) ++ s.lapsed = _
      rw [if_pos hspec.counted]
    have hother (r : String) (hr : r ∉ s.lapsed) (hnot : ¬ s'.Awaited r) :
        (s.maps.agentRunSeq.set evt.runId evt.seq).get? r = s.maps.events.seqByRun.get? r := by
      by_cases heq : r = evt.runId
      · rw [heq, JsMap.get?_set_self, hlast]
      · rw [hcounted r heq]
        exact h.counted r hr fun hold => (hawait.mp hold).elim heq hnot
    have hseq : s'.maps.events.seqByRun = s.maps.events.seqByRun := by rw [hmaps]; exact hspec.kept.seqByRun
    rcases hspec.seqs with hseqs | ⟨hsend, hover, hseqs⟩
    · have hdrop : Shrinks [] (s.maps.agentRunSeq.set evt.runId evt.seq) s'.maps.agentRunSeq :=
        hmaps ▸ hseqs ▸ Shrinks.refl _
      exact h.ofCounts hdrop hseq hgaps hsub (by simp) (fun r hr => hcounted r (hne hr)) hlapsed hother
    · refine h.ofCounts (hmaps ▸ hseqs) hseq hgaps hsub ?_ (fun r hr => hcounted r (hne hr)) hlapsed hother
      intro r hr hr'
      simp only [Steady, hstack, hnext, map_some, true_implies] at hsteady
      rcases mem_cons.mp hr with rfl | hr
      · exact absurd hr' hsingle
      · obtain rfl := mem_singleton.mp hr
        by_contra hhas
        have hold : s.maps.agentRunSeq.has (s.maps.clientRunId evt.runId) = true := by
          rw [JsMap.has, ← hcounted _ (hne hr')]
          exact Bool.not_eq_false _ ▸ hhas
        exact hsteady hsend hover (hne hr') hold (hawait.mpr (.inr hr'))
  · -- a look-up throws
    rw [hspec] at hmaps
    have hlapsed : s'.lapsed = evt.runId :: s.lapsed := by
      subst hs
      change (if (s.maps.handle evt w).counted then _ else _) ++ s.lapsed = _
      rw [hspec]
      rfl
    constructor
    · exact h.single.sublist (hsub.map _)
    · intro e he
      rw [hmaps]
      exact h.expected e (hsub.subset he)
    · intro r hr hnot
      rw [hlapsed, mem_cons, not_or] at hr
      rw [hmaps]
      exact h.counted r hr.2 fun hold => (hawait.mp hold).elim hr.1 hnot
    · subst hs
      change (s.maps.handle evt w).gap.toList ++ s.gaps = []
      rw [hspec, h.gaps]
      rfl

theorem Exact.finishAbort (h : Exact s) {runId sessionKey : String}
    (hsteady : Steady s .finishAbort) (hstack : s.stack = .abort runId sessionKey :: rest)
    (hs : s' = { s with
      maps := s.maps.finishAbort runId sessionKey, stack := rest
      lapsed := droppedRuns s.maps.agentRunSeq (s.maps.finishAbort runId sessionKey).agentRunSeq ++ s.lapsed })
    (hwaiting : s'.waiting = s.waiting) : Exact s' := by
  obtain ⟨keys, hkeys, hdrop⟩ := s.maps.finishAbort_shrinks runId sessionKey
  have hawait {r : String} : s'.Awaited r ↔ s.Awaited r := by rw [System.Awaited, hwaiting]; rfl
  have hsub : List.Sublist s'.waiting s.waiting := by rw [hwaiting]
  have hdrop' : Shrinks keys s.maps.agentRunSeq s'.maps.agentRunSeq := by rw [hs]; exact hdrop
  refine h.ofCounts hdrop' (by rw [hs]; rfl) (by rw [hs]; exact h.gaps) hsub ?_ (fun _ _ => rfl) (by rw [hs]) ?_
  · intro r hr hr'
    obtain rfl := hkeys r hr
    rw [Steady, hstack] at hsteady
    by_contra hhas
    exact hsteady (Bool.not_eq_false _ ▸ hhas) (hawait.mp hr')
  · intro r hr hnot
    exact h.counted r hr fun hold => hnot (hawait.mpr hold)

theorem Exact.next (h : Exact s) (hsteady : Steady s a) (hs : Step s a s') : Exact s' := by
  cases hs with
  | emit event hs hwaiting => exact h.emit event hsteady hs hwaiting
  | deliver evt w pos k calling rest hstack hnext hs hwaiting => exact h.deliver hsteady hstack hnext hs hwaiting
  | finishAbort runId sessionKey rest hstack hs hwaiting => exact h.finishAbort hsteady hstack hs hwaiting
  | idle hsame =>
    constructor
    · rw [hsame.waiting]
      exact h.single
    · rw [hsame.waiting, hsame.seqByRun, hsame.agentRunSeq]
      exact h.expected
    · rw [hsame.seqByRun, hsame.agentRunSeq, hsame.lapsed]
      intro r hr hnot
      refine h.counted r hr fun hold => hnot ?_
      rw [System.Awaited, hsame.waiting]
      exact hold
    · rw [hsame.gaps]
      exact h.gaps

/-- In a run of steady steps a gap is reported only if an earlier event of its run never came. -/
theorem truthful_of_steady {earlier : List L} {as : List (Action L)}
    (hsteady : Runs.Meets next Steady (System.start earlier) as) :
    Runs.Always next Truthful (System.start earlier) as := by
  have hstep (s : System L) (a : Action L) (s' : System L) (h : Registered s ∧ Exact s) (hP : Steady s a)
      (hs : next s a = some s') : Registered s' ∧ Exact s' := by
    obtain ⟨hstep, hreg⟩ := step_of_next h.1 hs
    exact ⟨hreg, h.2.next hP hstep⟩
  refine (Runs.always_of_meets hstep hsteady ⟨registered_start earlier, Exact.start earlier⟩).imp ?_
  intro s h gap hgap
  rw [h.2.gaps] at hgap
  cases hgap

/-! ### Gaps that are none -/

/-- The handler is called, and the loop of the emission comes to its end. -/
def through : List (Action L) := [.proceed {}, .proceed {}]

/-- A text of the assistant. -/
def saying (runId : String) : Action L := .emit { runId, stream := "assistant" }

/-- The end of a run. -/
def ending (runId : String) : Action L := .emit { runId, stream := "lifecycle", phase := some "end" }

/-- Two runs; in the midst of one a listener that comes after the handler emits for it. -/
def inOrder : List (Action String) :=
  [.change (.onAgentEvent "later"), saying "run", .proceed {}, .proceed {}, saying "run", .proceed {},
    .proceed {}, .proceed {}, .proceed {}, saying "other", .proceed {}, .proceed {}, .proceed {}, ending "run",
    .proceed {}]

theorem truthful_inOrder :
    Runs.Meets next Steady (System.start []) inOrder ∧ Runs.Always next Truthful (System.start []) inOrder := by
  have h : Runs.Meets next Steady (System.start []) inOrder := by decide +kernel
  exact ⟨h, truthful_of_steady h⟩

/-- A run ends twice. -/
def endsTwice : List (Action String) := ending "run" :: through ++ ending "run" :: through

/-- A run is aborted, and ends then. -/
def endsAborted : List (Action String) :=
  .change (.addController "run" "main") :: saying "run" :: through ++
    .abort "run" "main" :: .finishAbort :: ending "run" :: through

/-- A listener that comes before the handler emits for the run whose event it gets. -/
def emitsEarly : List (Action String) := [saying "run", .proceed {}, saying "run", .proceed {}, .proceed {}]

/-- In each of them a gap is reported though every event comes. -/
theorem false_gaps :
    (∃ s, Runs.exec next (System.start []) endsTwice = some s ∧ ¬ Truthful s) ∧
      (∃ s, Runs.exec next (System.start []) endsAborted = some s ∧ ¬ Truthful s) ∧
      ∃ s, Runs.exec next (System.start ["early"]) emitsEarly = some s ∧ ¬ Truthful s := by
  refine ⟨⟨_, rfl, ?_⟩, ⟨_, rfl, ?_⟩, _, rfl, ?_⟩ <;> decide +kernel

end Foxclaw.Gateway.AgentEventHandler
